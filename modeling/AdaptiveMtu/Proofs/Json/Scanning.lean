/-
Scanning a text that is written by the grammar.

A text that spells tokens is scanned to these tokens, one token at a time: from between two tokens, the
scanner is between two tokens again behind the characters of one, except that it may still be in a
numeral, which the next character ends.  A numeral right behind a numeral would not end it, so no
two of them may stand side by side; in the tokens of a value none do.
-/
import AdaptiveMtu.Proofs.Json.Grammar
import Mathlib.Data.List.Chain

namespace AdaptiveMtu

namespace Json

/-! ### Numerals -/

namespace OpenNumeral

/-- The numeral with more characters, if these continue it. -/
def run (n : OpenNumeral) (cs : List Char) : Option OpenNumeral := cs.foldlM next? n

/-- A numeral of which only the sign has been read. -/
def opened (negative : Bool) : OpenNumeral := ⟨.sign, negative, 0, [], false, 0⟩

theorem run_append (n : OpenNumeral) (cs ds : List Char) :
    n.run (cs ++ ds) = (n.run cs).bind fun m => m.run ds :=
  List.foldlM_append

theorem run_cons (n : OpenNumeral) (c : Char) (cs : List Char) :
    n.run (c :: cs) = (n.next? c).bind fun m => m.run cs := rfl

theorem next?_digitChar (n : OpenNumeral) {d : Nat} (h : d < 10) :
    n.next? (Numeral.digitChar d) = n.digit? d := by
  rw [next?, if_pos (Numeral.isDigit_digitChar h), Numeral.digitChar_toNat h]

theorem run_whole (negative : Bool) (w : Nat) :
    (opened negative).run (Numeral.digitsOf w)
      = some ⟨if w = 0 then .zero else .whole, negative, w, [], false, 0⟩ := by
  induction w using Numeral.digits_induct with
  | single d hd =>
      rw [Numeral.digitsOf_of_lt hd, run_cons, next?_digitChar _ hd]
      rfl
  | append n d hn hd ih =>
      rw [Numeral.digitsOf_append hn hd, run_append, ih, Option.bind_some, run_cons,
        next?_digitChar _ hd, if_neg (by omega), if_neg (by omega)]
      rfl

theorem run_fraction {n : OpenNumeral} (hstage : n.stage = .fraction) {ds : List Nat}
    (hds : ∀ d ∈ ds, d < 10) :
    n.run (ds.map Numeral.digitChar) = some { n with fraction := ds.reverse ++ n.fraction } := by
  induction ds generalizing n with
  | nil => rfl
  | cons d rest ih =>
      have hd : n.digit? d = some { n with fraction := d :: n.fraction } := by
        obtain ⟨stage, negative, whole, fraction, exponentNegative, exponent⟩ := n
        obtain rfl : stage = .fraction := hstage
        rfl
      rw [List.map_cons, run_cons, next?_digitChar n (hds d List.mem_cons_self), hd,
        Option.bind_some, List.reverse_cons, List.append_assoc]
      exact ih hstage fun e he => hds e (List.mem_cons_of_mem d he)

theorem run_exponent {n : OpenNumeral}
    (hstage : n.stage = .mark ∨ n.stage = .markSign ∨ n.stage = .exponent) {ds : List Nat}
    (hne : ds ≠ []) (hds : ∀ d ∈ ds, d < 10) :
    n.run (ds.map Numeral.digitChar) = some { n with
      stage := .exponent
      exponent := ds.foldl (fun acc d => 10 * acc + d) n.exponent } := by
  induction ds generalizing n with
  | nil => exact absurd rfl hne
  | cons d rest ih =>
      have hd : n.digit? d
          = some { n with stage := .exponent, exponent := 10 * n.exponent + d } := by
        rcases hstage with h | h | h <;> rw [digit?, h]
      rw [List.map_cons, run_cons, next?_digitChar n (hds d List.mem_cons_self), hd,
        Option.bind_some, List.foldl_cons]
      cases rest with
      | nil => rfl
      | cons e rest =>
          exact ih (.inr (.inr rfl)) (List.cons_ne_nil e rest)
            fun f hf => hds f (List.mem_cons_of_mem d hf)

/-- What has been read of a numeral before its exponent. -/
def beforeExponent (n : Numeral) : OpenNumeral :=
  ⟨if n.fraction = [] then (if n.whole = 0 then .zero else .whole) else .fraction, n.negative,
    n.whole, n.fraction.reverse, false, 0⟩

theorem run_beforeExponent {n : Numeral} (hn : n.Proper) :
    (opened n.negative).run (Numeral.digitsOf n.whole
      ++ if n.fraction = [] then [] else '.' :: n.fraction.map Numeral.digitChar)
      = some (beforeExponent n) := by
  obtain ⟨negative, whole, fraction, exponent⟩ := n
  rw [run_append, run_whole, Option.bind_some, beforeExponent]
  cases fraction with
  | nil => rfl
  | cons d rest =>
      have hd : d < 10 := hn d List.mem_cons_self
      have hpoint : (⟨if whole = 0 then .zero else .whole, negative, whole, [], false, 0⟩ :
          OpenNumeral).next? '.' = some ⟨.point, negative, whole, [], false, 0⟩ := by
        by_cases hwhole : whole = 0
        · rw [if_pos hwhole]
          rfl
        · rw [if_neg hwhole]
          rfl
      rw [if_neg (List.cons_ne_nil d rest), if_neg (List.cons_ne_nil d rest), run_cons, hpoint,
        Option.bind_some, List.map_cons, run_cons, next?_digitChar _ hd, List.reverse_cons]
      exact run_fraction rfl fun e he => hn e (List.mem_cons_of_mem d he)

/-- An exponent may follow the whole digits and the fraction, and nothing has to. -/
theorem beforeExponent_stage (n : Numeral) :
    (beforeExponent n).stage = .zero ∨ (beforeExponent n).stage = .whole ∨
      (beforeExponent n).stage = .fraction := by
  unfold beforeExponent
  by_cases hfraction : n.fraction = []
  · by_cases hwhole : n.whole = 0 <;> simp [hfraction, hwhole]
  · simp [hfraction]

/-- What has been read of a numeral behind its exponent. -/
def withExponent (n : OpenNumeral) (negative : Bool) (e : Nat) : OpenNumeral :=
  { n with stage := .exponent, exponentNegative := negative, exponent := e }

theorem run_exponentText {n : OpenNumeral}
    (hstage : n.stage = .zero ∨ n.stage = .whole ∨ n.stage = .fraction)
    (hsigned : n.exponentNegative = false) (hzero : n.exponent = 0) {mark : Char}
    (hmark : Numeral.IsMark mark) {sign : List Char} {negative : Bool}
    (hsign : Numeral.SignText sign negative) {ds : List Nat} (hne : ds ≠ [])
    (hds : ∀ d ∈ ds, d < 10) :
    n.run (mark :: (sign ++ ds.map Numeral.digitChar))
      = some (n.withExponent negative (Numeral.ofDigits ds)) := by
  have hopen : n.next? mark = some { n with stage := .mark } := by
    rcases hmark with rfl | rfl <;> rcases hstage with h | h | h <;> simp [next?, h]
  rw [run_cons, hopen, Option.bind_some]
  cases hsign with
  | absent =>
      rw [List.nil_append, run_exponent (.inl rfl) hne hds, withExponent, ← hsigned,
        Numeral.ofDigits, ← hzero]
  | plus =>
      have hplus : ({ n with stage := .mark } : OpenNumeral).next? '+'
          = some { n with stage := .markSign, exponentNegative := false } := rfl
      rw [List.singleton_append, run_cons, hplus, Option.bind_some,
        run_exponent (.inr (.inl rfl)) hne hds, withExponent, Numeral.ofDigits, ← hzero]
  | minus =>
      have hminus : ({ n with stage := .mark } : OpenNumeral).next? '-'
          = some { n with stage := .markSign, exponentNegative := true } := rfl
      rw [List.singleton_append, run_cons, hminus, Option.bind_some,
        run_exponent (.inr (.inl rfl)) hne hds, withExponent, Numeral.ofDigits, ← hzero]

theorem close?_of_stage {n : OpenNumeral}
    (hstage : n.stage = .zero ∨ n.stage = .whole ∨ n.stage = .fraction) :
    n.close? = some ⟨n.negative, n.whole, n.fraction.reverse, none⟩ := by
  unfold close?
  rcases hstage with h | h | h <;> rw [h]

theorem close?_withExponent (n : OpenNumeral) (negative : Bool) (e : Nat) :
    (n.withExponent negative e).close?
      = some ⟨n.negative, n.whole, n.fraction.reverse, some (Numeral.withSign negative e)⟩ := rfl

/-- The characters of a numeral behind its sign. -/
def unsignedChars (n : Numeral) (tail : List Char) : List Char :=
  (Numeral.digitsOf n.whole ++ if n.fraction = [] then [] else '.' :: n.fraction.map Numeral.digitChar)
    ++ tail

theorem mantissa_append (n : Numeral) (tail : List Char) :
    n.mantissa ++ tail = (if n.negative then ['-'] else []) ++ unsignedChars n tail := by
  rw [Numeral.mantissa, unsignedChars, List.append_assoc, List.append_assoc, List.append_assoc]

/-- **However a numeral is written, its characters are read as this numeral.** -/
theorem run_unsignedChars {n : Numeral} (hn : n.Proper) {tail : List Char}
    (htail : Numeral.ExponentText tail n.exponent) :
    ∃ o, (opened n.negative).run (unsignedChars n tail) = some o ∧ o.close? = some n := by
  have hbefore := run_beforeExponent hn
  have hstage := beforeExponent_stage n
  rw [unsignedChars, run_append, hbefore, Option.bind_some]
  obtain ⟨negative, whole, fraction, exponent⟩ := n
  cases htail with
  | absent =>
      refine ⟨_, rfl, (close?_of_stage hstage).trans ?_⟩
      simp only [beforeExponent, List.reverse_reverse]
  | written hmark hsign hne hds =>
      refine ⟨_, run_exponentText hstage rfl rfl hmark hsign hne hds, ?_⟩
      rw [close?_withExponent]
      simp only [beforeExponent, List.reverse_reverse]

end OpenNumeral

/-! ### Single tokens -/

/-- Whether a token is a numeral. -/
def Token.IsNumber : Token → Prop
  | .number _ => True
  | _ => False

namespace Scanner

/-- Between tokens, with the given ones found so far, newest first. -/
def between (found : List Token) : Scanner := ⟨found, .between⟩

theorem run_append (s : Scanner) (cs ds : List Char) :
    s.run (cs ++ ds) = (s.run cs).bind fun t => t.run ds :=
  List.foldlM_append

theorem run_cons (s : Scanner) (c : Char) (cs : List Char) :
    s.run (c :: cs) = (s.step c).bind fun t => t.run cs := rfl

theorem run_open (found : List Token) {n m : OpenNumeral} {cs : List Char} (h : n.run cs = some m) :
    Scanner.run ⟨found, .numeral n⟩ cs = some ⟨found, .numeral m⟩ := by
  induction cs generalizing n with
  | nil =>
      cases h
      rfl
  | cons c rest ih =>
      rw [OpenNumeral.run_cons, Option.bind_eq_some_iff] at h
      obtain ⟨longer, hnext, hrest⟩ := h
      have hstep : Scanner.step ⟨found, .numeral n⟩ c = some ⟨found, .numeral longer⟩ := by
        simp only [step, hnext]
      rw [run_cons, hstep]
      exact ih hrest

/-- A digit opens a numeral. -/
theorem opening?_digitChar (found : List Token) {d : Nat} (h : d < 10) :
    opening? found (Numeral.digitChar d)
      = ((OpenNumeral.opened false).next? (Numeral.digitChar d)).map fun n => ⟨found, .numeral n⟩ := by
  interval_cases d <;> rfl

theorem digitsOf_head (n : Nat) : ∃ d rest, d < 10 ∧ Numeral.digitsOf n = Numeral.digitChar d :: rest := by
  induction n using Numeral.digits_induct with
  | single d hd => exact ⟨d, [], hd, Numeral.digitsOf_of_lt hd⟩
  | append n d hn hd ih =>
      obtain ⟨first, rest, hfirst, heq⟩ := ih
      refine ⟨first, rest ++ [Numeral.digitChar d], hfirst, ?_⟩
      rw [Numeral.digitsOf_append hn hd, heq]
      rfl

theorem run_numeral (found : List Token) {n : Numeral} {cs : List Char} (h : n.SpelledAs cs) :
    ∃ o, (between found).run cs = some ⟨found, .numeral o⟩ ∧ o.close? = some n := by
  obtain @⟨hn, tail, htail⟩ := h
  obtain ⟨o, hrun, hclose⟩ := OpenNumeral.run_unsignedChars hn htail
  refine ⟨o, ?_, hclose⟩
  rw [OpenNumeral.mantissa_append]
  cases hnegative : n.negative with
  | true =>
      rw [hnegative] at hrun
      exact run_open found hrun
  | false =>
      rw [hnegative] at hrun
      obtain ⟨d, rest, hd, hdigits⟩ := digitsOf_head n.whole
      rw [OpenNumeral.unsignedChars, hdigits, List.cons_append, List.cons_append,
        OpenNumeral.run_cons, Option.bind_eq_some_iff] at hrun
      obtain ⟨first, hfirst, hrest⟩ := hrun
      have hstep : (between found).step (Numeral.digitChar d) = some ⟨found, .numeral first⟩ := by
        rw [between, step, opening?_digitChar found hd, hfirst]
        rfl
      rw [OpenNumeral.unsignedChars, hdigits, List.cons_append, List.cons_append]
      show (between found).run (Numeral.digitChar d :: _) = _
      rw [run_cons, hstep]
      exact run_open found hrest

/-- The remaining digits of an escape by number finish its piece. -/
theorem run_code (found : List Token) (pieces : List Piece) {cs : List Char} (hne : cs ≠ [])
    {digits value code : Nat} (hlength : digits + cs.length = 4)
    (h : cs.foldlM (fun acc c => (hexValue? c).map (16 * acc + ·)) value = some code) :
    Scanner.run ⟨found, .code pieces digits value⟩ cs
      = some ⟨found, .literal (Piece.ofCode code :: pieces)⟩ := by
  induction cs generalizing digits value with
  | nil => exact absurd rfl hne
  | cons c rest ih =>
      rw [List.foldlM_cons, Option.bind_eq_bind, Option.bind_eq_some_iff] at h
      obtain ⟨longer, hlonger, hrest⟩ := h
      obtain ⟨d, hd, rfl⟩ := Option.map_eq_some_iff.mp hlonger
      rw [run_cons]
      simp only [step, code?, hd, Option.map_some, Option.bind_some]
      rw [List.length_cons] at hlength
      cases rest with
      | nil =>
          rw [List.length_nil] at hlength
          cases hrest
          rw [if_pos (by omega)]
          rfl
      | cons e rest =>
          rw [List.length_cons] at hlength
          rw [if_neg (by omega)]
          exact ih (List.cons_ne_nil e rest) (by rw [List.length_cons]; omega) hrest

theorem run_piece (found : List Token) (pieces : List Piece) {p : Piece} {cs : List Char}
    (h : p.SpelledAs cs) :
    Scanner.run ⟨found, .literal pieces⟩ cs = some ⟨found, .literal (p :: pieces)⟩ := by
  cases h with
  | @plain c hquote hbackslash hcontrol =>
      have hstep : Scanner.step ⟨found, .literal pieces⟩ c
          = some ⟨found, .literal (.char c :: pieces)⟩ := by
        simp only [step, literal?, if_neg hquote, if_neg hbackslash, if_neg (Nat.not_lt.mpr hcontrol)]
      rw [run_cons, hstep]
      rfl
  | @escape letter target h =>
      have hletter : letter ≠ 'u' := by
        rintro rfl
        cases h
      have hstep : Scanner.step ⟨found, .escape pieces⟩ letter
          = some ⟨found, .literal (.char target :: pieces)⟩ := by
        simp only [step, if_neg hletter, h, Option.map_some]
      show Scanner.run ⟨found, .escape pieces⟩ [letter] = _
      rw [run_cons, hstep]
      rfl
  | @code digits hlength code h =>
      show Scanner.run ⟨found, .code pieces 0 0⟩ digits = _
      have hne : digits ≠ [] := by
        rintro rfl
        cases hlength
      exact run_code found pieces hne (by rw [hlength]) h

theorem run_pieces (found : List Token) {ps : List Piece} {cs : List Char} (h : PiecesText cs ps) :
    Scanner.run ⟨found, .literal []⟩ cs = some ⟨found, .literal ps.reverse⟩ := by
  induction h with
  | nil => rfl
  | snoc _ hp ih =>
      rw [run_append, ih, Option.bind_some, run_piece found _ hp, List.reverse_append]
      rfl

/-- **The characters of a string literal are read as it.** -/
theorem run_literal (found : List Token) {ps : List Piece} {cs : List Char} (h : PiecesText cs ps) :
    (between found).run ('"' :: cs ++ ['"']) = some (between (.text (literalOfPieces ps) :: found)) := by
  have hopen : (between found).step '"' = some ⟨found, .literal []⟩ := rfl
  rw [List.cons_append, run_cons, hopen, Option.bind_some, run_append, run_pieces found h,
    Option.bind_some]
  show some (between (.text (literalOf ps.reverse) :: found)) = _
  rw [literalOf, List.reverse_reverse, literalOfPieces]

/-- The characters of any token but a numeral lead from between tokens to between tokens. -/
theorem run_token (found : List Token) {t : Token} {cs : List Char} (h : t.SpelledAs cs)
    (hnumber : ¬ t.IsNumber) : (between found).run cs = some (between (t :: found)) := by
  cases h with
  | number h => exact absurd trivial hnumber
  | text h => exact run_literal found h
  | _ => rfl

end Scanner

/-! ### Texts of tokens -/

/-- The characters do not go on a numeral. -/
def Breaks (cs : List Char) : Prop := ∀ c ∈ cs.head?, ∀ n : OpenNumeral, n.next? c = none

theorem breaks_nil : Breaks [] := by
  intro c hc
  cases hc

theorem breaks_cons {c : Char} {cs : List Char} (h : ∀ n : OpenNumeral, n.next? c = none) :
    Breaks (c :: cs) := by
  intro d hd
  cases hd
  exact h

theorem next?_space {c : Char} (hc : Scanner.isSpace c = true) (n : OpenNumeral) :
    n.next? c = none := by
  simp only [Scanner.isSpace, Bool.or_eq_true, decide_eq_true_eq] at hc
  rcases hc with ((rfl | rfl) | rfl) | rfl <;> rfl

theorem breaks_token {t : Token} {cs : List Char} (h : t.SpelledAs cs) (hnumber : ¬ t.IsNumber)
    (ds : List Char) : Breaks (cs ++ ds) := by
  cases h with
  | number h => exact absurd trivial hnumber
  | _ => exact breaks_cons fun n => rfl

/-- What follows a numeral does not go on with it, unless it is another numeral. -/
theorem Spells.breaks {cs : List Char} {ts : List Token} (h : Spells cs ts)
    (hnumber : ∀ t ∈ ts.head?, ¬ t.IsNumber) : Breaks cs := by
  cases h with
  | nil => exact breaks_nil
  | space hc _ => exact breaks_cons (next?_space hc)
  | token ht _ => exact breaks_token ht (hnumber _ rfl) _

/-- No two numbers stand side by side. -/
def NumbersApart (ts : List Token) : Prop := ts.IsChain fun t u => t.IsNumber → ¬ u.IsNumber

namespace Scanner

theorem step_space {c : Char} (hc : isSpace c = true) (found : List Token) :
    (between found).step c = some (between found) := by
  rw [between, step, opening?, if_pos hc]

/-- What ends a numeral is read as if the scanner had been between tokens. -/
theorem run_behind_numeral {o : OpenNumeral} {n : Numeral} (hclose : o.close? = some n)
    (found : List Token) {cs : List Char} (hcs : Breaks cs) :
    (Scanner.run ⟨found, .numeral o⟩ cs).bind finish?
      = ((between (.number n :: found)).run cs).bind finish? := by
  cases cs with
  | nil =>
      show (o.close?.map fun whole => Token.number whole :: found) = _
      rw [hclose]
      rfl
  | cons c rest =>
      have hstep : Scanner.step ⟨found, .numeral o⟩ c = (between (.number n :: found)).step c := by
        simp only [step, hcs c rfl o, hclose, between, Option.bind_some]
      rw [run_cons, run_cons, hstep]

end Scanner

/-- **Scanning finds, one by one, the tokens that a text spells.** -/
theorem Spells.run {cs : List Char} {ts : List Token} (h : Spells cs ts) (hapart : NumbersApart ts)
    (found : List Token) :
    ((Scanner.between found).run cs).bind Scanner.finish? = some (ts.reverse ++ found) := by
  induction h generalizing found with
  | nil => rfl
  | space hc _ ih =>
      rw [Scanner.run_cons, Scanner.step_space hc]
      exact ih hapart found
  | @token t ds cs ts ht hcs ih =>
      obtain ⟨hnext, hrest⟩ := List.isChain_cons.mp hapart
      rw [Scanner.run_append, List.reverse_cons, List.append_assoc, List.singleton_append,
        ← ih hrest (t :: found)]
      by_cases hnumber : t.IsNumber
      · cases ht with
        | number hn =>
            obtain ⟨o, hrun, hclose⟩ := Scanner.run_numeral found hn
            have hbreaks : Breaks cs := hcs.breaks fun u hu => hnext u hu trivial
            rw [hrun, Option.bind_some, Scanner.run_behind_numeral hclose found hbreaks]
        | _ => exact absurd hnumber id
      · rw [Scanner.run_token found ht hnumber, Option.bind_some]

theorem Spells.tokens? {cs : List Char} {ts : List Token} (h : Spells cs ts)
    (hapart : NumbersApart ts) : tokens? cs = some ts := by
  have hrun := h.run hapart []
  rw [Option.bind_eq_some_iff] at hrun
  obtain ⟨s, hs, hfinish⟩ := hrun
  rw [Json.tokens?, show Scanner.start = Scanner.between [] from rfl, hs, Option.bind_some, hfinish,
    List.append_nil, Option.map_some, List.reverse_reverse]

end Json

end AdaptiveMtu
