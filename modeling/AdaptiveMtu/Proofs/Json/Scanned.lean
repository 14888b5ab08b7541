/-
A text that was scanned is written by the grammar.

What the characters read so far are is an invariant of the scanner: tokens with white space among
them, and behind these the beginning of one more token, as much of it as the scanner's mode says.  One
character keeps the invariant, and where the text may end there is no beginning left over.
-/
import AdaptiveMtu.Proofs.Json.Scanning

namespace AdaptiveMtu

namespace Json

/-! ### Numerals -/

namespace OpenNumeral

open Numeral (mantissa digitChar ofDigits ofDigits_append IsMark SignText ExponentText)

theorem exists_digitChar {c : Char} (h : c.isDigit = true) : ∃ d < 10, c = digitChar d := by
  simp only [Char.isDigit, Bool.and_eq_true, decide_eq_true_eq] at h
  obtain ⟨hlow, hhigh⟩ := h
  have hlow' : 48 ≤ c.toNat := hlow
  have hhigh' : c.toNat ≤ 57 := hhigh
  refine ⟨c.toNat - 48, by omega, ?_⟩
  have hvalue : '0'.toNat + (c.toNat - 48) = c.toNat := by
    show 48 + (c.toNat - 48) = c.toNat
    omega
  rw [digitChar, hvalue, Char.ofNat_toNat]

/-- A character goes on a numeral in one of four ways. -/
theorem next?_cases {n m : OpenNumeral} {c : Char} (h : n.next? c = some m) :
    (∃ d < 10, c = digitChar d ∧ n.digit? d = some m) ∨
    (c = '.' ∧ (n.stage = .zero ∨ n.stage = .whole) ∧ m = { n with stage := .point }) ∨
    (IsMark c ∧ (n.stage = .zero ∨ n.stage = .whole ∨ n.stage = .fraction) ∧
      m = { n with stage := .mark }) ∨
    ((∃ negative, SignText [c] negative ∧
      m = { n with stage := .markSign, exponentNegative := negative }) ∧ n.stage = .mark) := by
  unfold next? at h
  split_ifs at h with hdigit hpoint hstage hmark hstage hsign hstage
  · obtain ⟨d, hd, rfl⟩ := exists_digitChar hdigit
    rw [Numeral.digitChar_toNat hd] at h
    exact .inl ⟨d, hd, rfl, h⟩
  · rw [Bool.or_eq_true, decide_eq_true_eq, decide_eq_true_eq] at hstage
    exact .inr (.inl ⟨hpoint, hstage, (Option.some.inj h).symm⟩)
  · simp only [Bool.or_eq_true, decide_eq_true_eq] at hmark hstage
    exact .inr (.inr (.inl ⟨hmark, or_assoc.mp hstage, (Option.some.inj h).symm⟩))
  · simp only [Bool.or_eq_true, decide_eq_true_eq] at hsign
    refine .inr (.inr (.inr ⟨?_, hstage⟩))
    rcases hsign with rfl | rfl
    · exact ⟨false, .plus, (Option.some.inj h).symm⟩
    · exact ⟨true, .minus, (Option.some.inj h).symm⟩

/-- The characters are those of a numeral that has been read so far. -/
inductive Reads : OpenNumeral → List Char → Prop where
  | sign : Reads (opened true) ['-']
  | mantissa {n : Numeral} (hn : n.Proper) : Reads (beforeExponent n) n.mantissa
  | point {n : Numeral} (hn : n.fraction = []) :
      Reads { beforeExponent n with stage := .point } (n.mantissa ++ ['.'])
  | mark {n : Numeral} (hn : n.Proper) {mark : Char} (hmark : IsMark mark) :
      Reads { beforeExponent n with stage := .mark } (n.mantissa ++ [mark])
  | markSign {n : Numeral} (hn : n.Proper) {mark : Char} (hmark : IsMark mark) {sign : Char}
      {negative : Bool} (hsign : SignText [sign] negative) :
      Reads { beforeExponent n with stage := .markSign, exponentNegative := negative }
        (n.mantissa ++ [mark, sign])
  | exponent {n : Numeral} (hn : n.Proper) {mark : Char} (hmark : IsMark mark) {sign : List Char}
      {negative : Bool} (hsign : SignText sign negative) {ds : List Nat} (hne : ds ≠ [])
      (hds : ∀ d ∈ ds, d < 10) :
      Reads ((beforeExponent n).withExponent negative (ofDigits ds))
        (n.mantissa ++ mark :: (sign ++ ds.map digitChar))

theorem reads_begin {n : OpenNumeral} {c : Char} (h : begin? c = some n) : Reads n [c] := by
  unfold begin? at h
  split_ifs at h with hminus hzero hdigit
  · cases h
    rw [hminus]
    exact .sign
  · cases h
    rw [hzero]
    exact .mantissa (n := Numeral.ofNat 0) (Numeral.proper_ofNat 0)
  · obtain ⟨d, hd, rfl⟩ := exists_digitChar hdigit
    rw [Numeral.digitChar_toNat hd] at h
    have hd' : d ≠ 0 := by
      rintro rfl
      exact hzero rfl
    have hread := Reads.mantissa (Numeral.proper_ofNat d)
    rw [Numeral.mantissa, Numeral.ofNat, Numeral.digitsOf_of_lt hd, beforeExponent, if_pos rfl,
      if_neg hd'] at hread
    rwa [← Option.some.inj h]

/-- The mantissa with one more digit, if there may be one. -/
theorem reads_mantissa_digit {n : Numeral} {m : OpenNumeral} (hn : n.Proper) {d : Nat} (hd : d < 10)
    (h : (beforeExponent n).digit? d = some m) : Reads m (n.mantissa ++ [digitChar d]) := by
  obtain ⟨negative, whole, fraction, exponent⟩ := n
  cases fraction with
  | nil =>
      by_cases hwhole : whole = 0
      · rw [beforeExponent, digit?, if_pos rfl, if_pos hwhole] at h
        cases h
      · rw [beforeExponent, digit?, if_pos rfl, if_neg hwhole] at h
        have hread : Reads (beforeExponent ⟨negative, 10 * whole + d, [], exponent⟩)
            (Numeral.mantissa ⟨negative, 10 * whole + d, [], exponent⟩) := .mantissa hn
        rw [← Option.some.inj h]
        simpa [beforeExponent, Numeral.mantissa, hwhole,
          Numeral.digitsOf_append (Nat.pos_of_ne_zero hwhole) hd] using hread
  | cons first rest =>
      have hproper : Numeral.Proper ⟨negative, whole, first :: rest ++ [d], exponent⟩ :=
        List.forall_mem_append.mpr ⟨hn, List.forall_mem_singleton.mpr hd⟩
      have hread := Reads.mantissa hproper
      rw [beforeExponent, digit?, if_neg (List.cons_ne_nil _ _)] at h
      rw [← Option.some.inj h]
      simpa [beforeExponent, Numeral.mantissa] using hread

theorem reads_exponent_digit {n : Numeral} (hn : n.Proper) {mark : Char} (hmark : IsMark mark)
    {sign : List Char} {negative : Bool} (hsign : SignText sign negative) {ds : List Nat}
    (hds : ∀ d ∈ ds, d < 10) {d : Nat} (hd : d < 10) :
    Reads ((beforeExponent n).withExponent negative (10 * ofDigits ds + d))
      (n.mantissa ++ mark :: (sign ++ ds.map digitChar) ++ [digitChar d]) := by
  have hds' : ∀ e ∈ ds ++ [d], e < 10 :=
    List.forall_mem_append.mpr ⟨hds, List.forall_mem_singleton.mpr hd⟩
  have hread := Reads.exponent hn hmark hsign (List.append_ne_nil_of_right_ne_nil ds
    (List.cons_ne_nil d [])) hds'
  rw [ofDigits_append, List.map_append] at hread
  simpa using hread

/-- **One character keeps what has been read of a numeral.** -/
theorem Reads.next {n m : OpenNumeral} {cs : List Char} {c : Char} (h : Reads n cs)
    (hstep : n.next? c = some m) : Reads m (cs ++ [c]) := by
  rcases next?_cases hstep with ⟨d, hd, rfl, hdigit⟩ | ⟨rfl, hstage, rfl⟩ | ⟨hmark, hstage, rfl⟩
    | ⟨⟨negative, hsign, rfl⟩, hstage⟩
  · -- A digit.
    have hnone : ∀ d ∈ ([] : List Nat), d < 10 := List.forall_mem_nil _
    cases h with
    | sign =>
        have hread := Reads.mantissa (n := ⟨true, d, [], none⟩) hnone
        rw [Numeral.mantissa, Numeral.digitsOf_of_lt hd, beforeExponent] at hread
        rw [← Option.some.inj hdigit]
        exact hread
    | mantissa hn => exact reads_mantissa_digit hn hd hdigit
    | @point n hn =>
        obtain ⟨negative, whole, fraction, exponent⟩ := n
        obtain rfl : fraction = [] := hn
        have hread := Reads.mantissa (n := ⟨negative, whole, [d], exponent⟩)
          (List.forall_mem_singleton.mpr hd)
        rw [← Option.some.inj hdigit]
        simpa [beforeExponent, Numeral.mantissa] using hread
    | mark hn hmark =>
        have hread := reads_exponent_digit hn hmark .absent hnone hd
        rw [← Option.some.inj hdigit]
        exact hread
    | @markSign n hn mark hmark sign negative hsign =>
        have hread := reads_exponent_digit hn hmark hsign hnone hd
        rw [← Option.some.inj hdigit]
        exact hread
    | exponent hn hmark hsign _ hds =>
        rw [← Option.some.inj hdigit]
        exact reads_exponent_digit hn hmark hsign hds hd
  · -- The point.
    cases h with
    | @mantissa n hn =>
        have hfraction : n.fraction = [] := by
          by_contra hne
          rw [beforeExponent, if_neg hne] at hstage
          rcases hstage with h | h <;> cases h
        exact .point hfraction
    | _ => rcases hstage with h | h <;> cases h
  · -- The letter of an exponent.
    cases h with
    | mantissa hn => exact .mark hn hmark
    | _ => rcases hstage with h | h | h <;> cases h
  · -- The sign of an exponent.
    cases h with
    | @mark n hn mark hmark =>
        rw [List.append_assoc]
        exact .markSign hn hmark hsign
    | @mantissa n hn => rcases beforeExponent_stage n with h | h | h <;> rw [h] at hstage <;> cases hstage
    | _ => cases hstage

/-- What may end here is a numeral. -/
theorem Reads.close {n : OpenNumeral} {cs : List Char} {whole : Numeral} (h : Reads n cs)
    (hclose : n.close? = some whole) : whole.SpelledAs cs := by
  cases h with
  | @mantissa n hn =>
      rw [close?_of_stage (beforeExponent_stage n)] at hclose
      have hspelled := Numeral.SpelledAs.intro (n := ⟨n.negative, n.whole, n.fraction, none⟩) hn
        .absent
      rw [List.append_nil] at hspelled
      rw [← Option.some.inj hclose]
      simp only [beforeExponent, List.reverse_reverse]
      exact hspelled
  | @exponent n hn mark hmark sign negative hsign ds hne hds =>
      rw [close?_withExponent] at hclose
      have hspelled := Numeral.SpelledAs.intro
        (n := ⟨n.negative, n.whole, n.fraction, some (Numeral.withSign negative (ofDigits ds))⟩) hn
        (.written hmark hsign hne hds)
      rw [← Option.some.inj hclose]
      simp only [beforeExponent, List.reverse_reverse]
      exact hspelled
  | _ => cases hclose

end OpenNumeral

/-! ### The scanner -/

theorem spelledAs_mark {c : Char} {t : Token} (h : Scanner.mark? c = some t) : t.SpelledAs [c] := by
  unfold Scanner.mark? at h
  split_ifs at h with h1 h2 h3 h4 h5 h6
  · cases h; rw [h1]; exact .openBrace
  · cases h; rw [h2]; exact .closeBrace
  · cases h; rw [h3]; exact .openBracket
  · cases h; rw [h4]; exact .closeBracket
  · cases h; rw [h5]; exact .colon
  · cases h; rw [h6]; exact .comma

theorem spelledAs_word {c : Char} {rest : List Char} {t : Token}
    (h : Scanner.word? c = some (rest, t)) : t.SpelledAs (c :: rest) := by
  unfold Scanner.word? at h
  split_ifs at h with h1 h2 h3
  · cases h; rw [h1]; exact .null
  · cases h; rw [h2]; exact .true
  · cases h; rw [h3]; exact .false

theorem hexNumber?_append {cs : List Char} {c : Char} {value d : Nat} (h : hexNumber? cs = some value)
    (hd : hexValue? c = some d) : hexNumber? (cs ++ [c]) = some (16 * value + d) := by
  rw [hexNumber?, List.foldlM_append, ← hexNumber?, h, Option.bind_eq_bind, Option.bind_some,
    List.foldlM_cons, hd]
  rfl

namespace Scanner

/-- The characters are the tokens found so far and the beginning of the next one. -/
inductive Reads : Scanner → List Char → Prop where
  | between {found : List Token} {cs : List Char} (h : Spells cs found.reverse) :
      Reads (between found) cs
  | word {found : List Token} {cs : List Char} (h : Spells cs found.reverse) {read rest : List Char}
      {t : Token} (ht : t.SpelledAs (read ++ rest)) : Reads ⟨found, .word rest t⟩ (cs ++ read)
  | numeral {found : List Token} {cs : List Char} (h : Spells cs found.reverse) {n : OpenNumeral}
      {ds : List Char} (hn : n.Reads ds) : Reads ⟨found, .numeral n⟩ (cs ++ ds)
  | literal {found : List Token} {cs : List Char} (h : Spells cs found.reverse) {ds : List Char}
      {ps : List Piece} (hps : PiecesText ds ps) :
      Reads ⟨found, .literal ps.reverse⟩ (cs ++ '"' :: ds)
  | escape {found : List Token} {cs : List Char} (h : Spells cs found.reverse) {ds : List Char}
      {ps : List Piece} (hps : PiecesText ds ps) :
      Reads ⟨found, .escape ps.reverse⟩ (cs ++ '"' :: ds ++ ['\\'])
  | code {found : List Token} {cs : List Char} (h : Spells cs found.reverse) {ds : List Char}
      {ps : List Piece} (hps : PiecesText ds ps) {digits : List Char} {value : Nat}
      (hvalue : hexNumber? digits = some value) :
      Reads ⟨found, .code ps.reverse digits.length value⟩ (cs ++ '"' :: ds ++ '\\' :: 'u' :: digits)

theorem spells_snoc {cs ds : List Char} {found : List Token} {t : Token}
    (h : Spells cs found.reverse) (ht : t.SpelledAs ds) :
    Spells (cs ++ ds) (t :: found).reverse := by
  rw [List.reverse_cons]
  exact h.append (spells_token ht)

/-- Between tokens, a character is white space, a token by itself, or the beginning of one. -/
theorem reads_opening {s : Scanner} {found : List Token} {cs : List Char} {c : Char}
    (h : Spells cs found.reverse) (hstep : opening? found c = some s) : Reads s (cs ++ [c]) := by
  unfold opening? at hstep
  split_ifs at hstep with hspace hquote
  · cases hstep
    have hcs := h.append (spells_space hspace)
    rw [List.append_nil] at hcs
    exact .between hcs
  · cases hstep
    rw [hquote]
    exact .literal h .nil
  · split at hstep
    · rename_i t hmark
      cases hstep
      exact .between (spells_snoc h (spelledAs_mark hmark))
    · split at hstep
      · rename_i rest t hword
        cases hstep
        have hspelled : t.SpelledAs ([c] ++ rest) := spelledAs_word hword
        exact .word h hspelled
      · obtain ⟨n, hn, rfl⟩ := Option.map_eq_some_iff.mp hstep
        exact .numeral h (OpenNumeral.reads_begin hn)

theorem reads_piece {found : List Token} {cs ds ps' : List Char} {ps : List Piece} {p : Piece}
    (h : Spells cs found.reverse) (hps : PiecesText ds ps) (hp : p.SpelledAs ps') :
    Reads ⟨found, .literal (p :: ps.reverse)⟩ (cs ++ '"' :: ds ++ ps') := by
  have hread := Reads.literal h (hps.snoc hp)
  rw [List.reverse_append] at hread
  rw [List.append_assoc]
  exact hread

/-- **One character keeps what has been read.** -/
theorem Reads.step {s t : Scanner} {cs : List Char} {c : Char} (h : Reads s cs)
    (hstep : s.step c = some t) : Reads t (cs ++ [c]) := by
  cases h with
  | between h => exact reads_opening h hstep
  | @word found cs h read rest token ht =>
      rw [List.append_assoc]
      cases rest with
      | nil => cases hstep
      | cons letter rest =>
          cases rest with
          | nil =>
              simp only [Scanner.step] at hstep
              split_ifs at hstep with hc
              cases hstep
              rw [hc]
              exact .between (spells_snoc h ht)
          | cons next rest =>
              simp only [Scanner.step] at hstep
              split_ifs at hstep with hc
              cases hstep
              rw [hc]
              refine .word h ?_
              rwa [List.append_assoc]
  | @numeral found cs h n ds hn =>
      simp only [Scanner.step] at hstep
      split at hstep
      · rename_i longer hnext
        cases hstep
        rw [List.append_assoc]
        exact .numeral h (hn.next hnext)
      · obtain ⟨whole, hclose, hopening⟩ := Option.bind_eq_some_iff.mp hstep
        exact reads_opening (spells_snoc h (.number (hn.close hclose))) hopening
  | @literal found cs h ds ps hps =>
      simp only [Scanner.step, literal?] at hstep
      split_ifs at hstep with hquote hbackslash hcontrol
      · cases hstep
        rw [hquote, List.append_assoc, literalOf, List.reverse_reverse]
        exact .between (spells_snoc h (.text hps))
      · cases hstep
        rw [hbackslash]
        exact .escape h hps
      · cases hstep
        exact reads_piece h hps (.plain hquote hbackslash (Nat.le_of_not_lt hcontrol))
  | @escape found cs h ds ps hps =>
      simp only [Scanner.step] at hstep
      split_ifs at hstep with hcode
      · cases hstep
        have hnone : hexNumber? [] = some 0 := rfl
        rw [hcode, List.append_assoc]
        exact .code h hps hnone
      · obtain ⟨target, htarget, rfl⟩ := Option.map_eq_some_iff.mp hstep
        rw [List.append_assoc]
        exact reads_piece h hps (.escape htarget)
  | @code found cs h ds ps hps digits value hvalue =>
      simp only [Scanner.step, code?] at hstep
      obtain ⟨d, hd, rfl⟩ := Option.map_eq_some_iff.mp hstep
      have hlonger := hexNumber?_append hvalue hd
      rw [List.append_assoc]
      split_ifs with hlength
      · have hfour : (digits ++ [c]).length = 4 := by
          rw [List.length_append, hlength]
          rfl
        exact reads_piece h hps (.code hfour hlonger)
      · have hread := Reads.code h hps hlonger
        rwa [List.length_append] at hread

theorem Reads.run {s t : Scanner} {cs ds : List Char} (h : Reads s cs) (hrun : s.run ds = some t) :
    Reads t (cs ++ ds) := by
  induction ds generalizing s cs with
  | nil =>
      cases hrun
      rwa [List.append_nil]
  | cons c rest ih =>
      rw [run_cons, Option.bind_eq_some_iff] at hrun
      obtain ⟨next, hnext, hrest⟩ := hrun
      have hread := ih (h.step hnext) hrest
      rwa [List.append_assoc] at hread

/-- Where the text may end, it is the tokens found. -/
theorem Reads.finish {s : Scanner} {cs : List Char} {found : List Token} (h : Reads s cs)
    (hfinish : s.finish? = some found) : Spells cs found.reverse := by
  cases h with
  | between h =>
      cases hfinish
      exact h
  | numeral h hn =>
      obtain ⟨whole, hclose, rfl⟩ := Option.map_eq_some_iff.mp hfinish
      exact spells_snoc h (.number (hn.close hclose))
  | _ => cases hfinish

end Scanner

/-- **A text that was scanned spells the tokens that were found.** -/
theorem spells_of_tokens? {cs : List Char} {ts : List Token} (h : tokens? cs = some ts) :
    Spells cs ts := by
  obtain ⟨s, hrun, hfinish⟩ := Option.bind_eq_some_iff.mp h
  obtain ⟨found, hfound, rfl⟩ := Option.map_eq_some_iff.mp hfinish
  exact ((Scanner.Reads.between .nil).run hrun).finish hfound

end Json

end AdaptiveMtu
