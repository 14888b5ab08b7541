/-
What is read, and from which texts.

The tokens that a reader has taken can be told from its state: those of the containers that are still
open, outermost first, with what they have gathered, and those of what is complete.  One token is added
by one step, so a reader that finishes with a value has taken the tokens of this value.  Together with
what is known of the scanner, a text is read as a value exactly if it is a way of writing that value.
-/
import AdaptiveMtu.Proofs.Json.RoundTrip
import AdaptiveMtu.Proofs.Json.Scanned

namespace AdaptiveMtu

namespace Json

/-! ### The tokens of what is open -/

/-- The tokens of an array that is still open; its elements stand newest first. -/
def openElements : List Json → List Token
  | [] => [.openBracket]
  | v :: older => openElements older ++ tokens v ++ [.comma]

/-- The tokens of an object that is still open; its members stand newest first. -/
def openMembers : List (Literal × Json) → List Token
  | [] => [.openBrace]
  | (name, v) :: older => openMembers older ++ .text name :: .colon :: tokens v ++ [.comma]

/-- The tokens of the open containers, which stand innermost first. -/
def outerTokens : List Frame → List Token
  | [] => []
  | .elements gathered :: outer => outerTokens outer ++ openElements gathered
  | .members gathered name :: outer =>
    outerTokens outer ++ openMembers gathered ++ [.text name, .colon]

/-- An open array with one more element and others behind it. -/
theorem openElements_append (gathered : List Json) (v : Json) (rest : List Json) :
    openElements gathered ++ (tokens v ++ elementTokens rest)
      = tokens (.array (gathered.reverse ++ v :: rest)) := by
  induction gathered generalizing v rest with
  | nil => rfl
  | cons w older ih =>
      rw [List.reverse_cons, List.append_assoc, List.singleton_append, ← ih w (v :: rest)]
      simp only [openElements, elementTokens, List.append_assoc, List.cons_append, List.nil_append]

/-- An open object with one more member and others behind it. -/
theorem openMembers_append (gathered : List (Literal × Json)) (name : Literal) (v : Json)
    (rest : List (Literal × Json)) :
    openMembers gathered ++ (.text name :: .colon :: (tokens v ++ memberTokens rest))
      = tokens (.object (gathered.reverse ++ (name, v) :: rest)) := by
  induction gathered generalizing name v rest with
  | nil => rfl
  | cons m older ih =>
      rw [List.reverse_cons, List.append_assoc, List.singleton_append,
        ← ih m.1 m.2 ((name, v) :: rest)]
      simp only [openMembers, memberTokens, List.append_assoc, List.cons_append, List.nil_append]

/-! ### Reading -/

namespace Reader

/-- The tokens that lead to a state. -/
def taken : Reader → List Token
  | .value outer => outerTokens outer
  | .elementOrEnd outer => outerTokens outer ++ [.openBracket]
  | .nameOrEnd outer => outerTokens outer ++ [.openBrace]
  | .nextName outer gathered => outerTokens outer ++ openMembers gathered
  | .colon outer gathered name => outerTokens outer ++ openMembers gathered ++ [.text name]
  | .complete outer v => outerTokens outer ++ tokens v

theorem taken_value? {outer : List Frame} {t : Token} {r : Reader} (h : value? outer t = some r) :
    r.taken = outerTokens outer ++ [t] := by
  cases t with
  | closeBrace | closeBracket | colon | comma => cases h
  | _ =>
      cases h
      rfl

theorem taken_afterValue? {v : Json} {outer : List Frame} {t : Token} {r : Reader}
    (h : afterValue? v outer t = some r) : r.taken = outerTokens outer ++ tokens v ++ [t] := by
  cases outer with
  | nil => cases h
  | cons frame outer =>
      cases frame with
      | elements gathered =>
          cases t with
          | comma =>
              cases h
              simp only [taken, outerTokens, openElements, List.append_assoc]
          | closeBracket =>
              cases h
              have happend := openElements_append gathered v []
              simp only [taken, outerTokens, List.reverse_cons, ← happend, elementTokens,
                List.append_assoc]
          | _ => cases h
      | members gathered name =>
          cases t with
          | comma =>
              cases h
              simp only [taken, outerTokens, openMembers, List.append_assoc, List.cons_append,
                List.nil_append]
          | closeBrace =>
              cases h
              have happend := openMembers_append gathered name v []
              simp only [taken, outerTokens, List.reverse_cons, ← happend, memberTokens,
                List.append_assoc, List.cons_append, List.nil_append]
          | _ => cases h

theorem step_elementOrEnd {t : Token} (ht : t ≠ .closeBracket) (outer : List Frame) :
    (elementOrEnd outer).step t = value? (.elements [] :: outer) t := by
  cases t with
  | closeBracket => exact absurd rfl ht
  | _ => rfl

/-- **One step takes one token.** -/
theorem taken_step {r s : Reader} {t : Token} (h : r.step t = some s) :
    s.taken = r.taken ++ [t] := by
  cases r with
  | value outer => exact taken_value? h
  | complete outer v => exact taken_afterValue? h
  | elementOrEnd outer =>
      by_cases ht : t = .closeBracket
      · subst ht
        cases h
        simp only [taken, tokens, List.append_assoc, List.cons_append, List.nil_append]
      · rw [step_elementOrEnd ht] at h
        exact taken_value? h
  | nameOrEnd outer =>
      cases t with
      | closeBrace | text =>
          cases h
          simp only [taken, tokens, openMembers, List.append_assoc, List.cons_append,
            List.nil_append]
      | _ => cases h
  | nextName outer gathered =>
      cases t with
      | text name =>
          cases h
          rfl
      | _ => cases h
  | colon outer gathered name =>
      cases t with
      | colon =>
          cases h
          simp only [taken, outerTokens, List.append_assoc, List.cons_append, List.nil_append]
      | _ => cases h

theorem taken_run {r s : Reader} {ts : List Token} (h : r.run ts = some s) :
    s.taken = r.taken ++ ts := by
  induction ts generalizing r with
  | nil =>
      cases h
      rw [List.append_nil]
  | cons t rest ih =>
      rw [run_cons, Option.bind_eq_some_iff] at h
      obtain ⟨next, hnext, hrest⟩ := h
      rw [ih hrest, taken_step hnext, List.append_assoc]
      rfl

theorem finish?_eq_some_iff {r : Reader} {v : Json} : r.finish? = some v ↔ r = .complete [] v := by
  constructor
  · intro h
    cases r with
    | complete outer w =>
        cases outer with
        | nil =>
            cases h
            rfl
        | cons _ _ => cases h
    | _ => cases h
  · rintro rfl
    rfl

end Reader

/-- Tokens are read as a value exactly if they are its tokens. -/
theorem ofTokens?_eq_some_iff {ts : List Token} {v : Json} :
    ofTokens? ts = some v ↔ ts = tokens v := by
  constructor
  · intro h
    obtain ⟨r, hrun, hfinish⟩ := Option.bind_eq_some_iff.mp h
    obtain rfl := Reader.finish?_eq_some_iff.mp hfinish
    exact (Reader.taken_run hrun).symm
  · rintro rfl
    have hrun := Reader.run_tokens [] v []
    rw [List.append_nil] at hrun
    rw [ofTokens?, hrun]
    rfl

/-- **A text is read as a value exactly if it is a way of writing that value.** -/
theorem read?_eq_some_iff {text : String} {v : Json} : read? text = some v ↔ v.SpelledAs text := by
  constructor
  · intro h
    obtain ⟨ts, hscanned, hread⟩ := Option.bind_eq_some_iff.mp h
    obtain rfl := ofTokens?_eq_some_iff.mp hread
    exact spells_of_tokens? hscanned
  · exact read?_of_spells

/-- No text is a way of writing two values. -/
theorem SpelledAs.unique {text : String} {v w : Json} (hv : v.SpelledAs text)
    (hw : w.SpelledAs text) : v = w :=
  Option.some.inj ((read?_of_spells hv).symm.trans (read?_of_spells hw))

end Json

end AdaptiveMtu
