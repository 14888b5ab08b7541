/-
Reading what was written.

The compact and the indented form of a value spell the same tokens, so what is scanned of either is
these tokens.  Reading the tokens of a value where a value is due completes that value and leaves the
containers around it as they are; for the tokens of a whole text there are none.
-/
import AdaptiveMtu.Json.Reader
import AdaptiveMtu.Proofs.Json.Scanning

namespace AdaptiveMtu

namespace Json

/-! ### Values whose numerals can be written -/

mutual

/-- Whether all numerals of a value are made of digits. -/
def Proper : Json → Prop
  | .null | .bool _ | .text _ => True
  | .number n => n.Proper
  | .array elements => AllProper elements
  | .object members => MembersProper members

/-- Whether all values of a list are proper. -/
def AllProper : List Json → Prop
  | [] => True
  | v :: rest => v.Proper ∧ AllProper rest

/-- Whether all members of an object are proper. -/
def MembersProper : List (Literal × Json) → Prop
  | [] => True
  | (_, v) :: rest => v.Proper ∧ MembersProper rest

end

/-! ### Both forms spell the tokens -/

mutual

theorem spells_compact (v : Json) (hv : v.Proper) : Spells (compactChars v) (tokens v) := by
  match v, hv with
  | .null, _ => exact spells_token .null
  | .bool true, _ => exact spells_token .true
  | .bool false, _ => exact spells_token .false
  | .number n, hv => exact spells_token (.number (Numeral.spelledAs_chars hv))
  | .text t, _ => exact spells_token (spelledAs_literalChars t)
  | .array [], _ => exact .token .openBracket (spells_token .closeBracket)
  | .array (v :: rest), hv =>
      simp only [compactChars, tokens, List.cons_append]
      exact .token .openBracket ((spells_compact v hv.1).append (spells_compactElements rest hv.2))
  | .object [], _ => exact .token .openBrace (spells_token .closeBrace)
  | .object ((name, v) :: rest), hv =>
      simp only [compactChars, tokens, List.append_assoc, List.cons_append]
      exact .token .openBrace (.token (spelledAs_literalChars name) (.token .colon
        ((spells_compact v hv.1).append (spells_compactMembers rest hv.2))))

theorem spells_compactElements (elements : List Json) (hv : AllProper elements) :
    Spells (compactElements elements) (elementTokens elements) := by
  match elements, hv with
  | [], _ => exact spells_token .closeBracket
  | v :: rest, hv =>
      simp only [compactElements, elementTokens, List.cons_append]
      exact .token .comma ((spells_compact v hv.1).append (spells_compactElements rest hv.2))

theorem spells_compactMembers (members : List (Literal × Json)) (hv : MembersProper members) :
    Spells (compactMembers members) (memberTokens members) := by
  match members, hv with
  | [], _ => exact spells_token .closeBrace
  | (name, v) :: rest, hv =>
      simp only [compactMembers, memberTokens, List.append_assoc, List.cons_append]
      exact .token .comma (.token (spelledAs_literalChars name) (.token .colon
        ((spells_compact v hv.1).append (spells_compactMembers rest hv.2))))

end

theorem spells_newLine (depth : Nat) : Spells (newLine depth) [] := by
  have hspaces : ∀ n, Spells (List.replicate n ' ') [] := by
    intro n
    induction n with
    | zero => exact .nil
    | succ n ih => exact .space rfl ih
  exact .space rfl (hspaces _)

mutual

theorem spells_indented (depth : Nat) (v : Json) (hv : v.Proper) :
    Spells (indentedChars depth v) (tokens v) := by
  match v, hv with
  | .null, _ => exact spells_token .null
  | .bool true, _ => exact spells_token .true
  | .bool false, _ => exact spells_token .false
  | .number n, hv => exact spells_token (.number (Numeral.spelledAs_chars hv))
  | .text t, _ => exact spells_token (spelledAs_literalChars t)
  | .array [], _ => exact .token .openBracket (spells_token .closeBracket)
  | .array (v :: rest), hv =>
      simp only [indentedChars, tokens, List.append_assoc, List.cons_append]
      exact .token .openBracket ((spells_newLine _).append
        ((spells_indented _ v hv.1).append (spells_indentedElements depth rest hv.2)))
  | .object [], _ => exact .token .openBrace (spells_token .closeBrace)
  | .object ((name, v) :: rest), hv =>
      simp only [indentedChars, tokens, List.append_assoc, List.cons_append]
      exact .token .openBrace ((spells_newLine _).append (.token (spelledAs_literalChars name)
        (.token .colon (.space rfl
          ((spells_indented _ v hv.1).append (spells_indentedMembers depth rest hv.2))))))

theorem spells_indentedElements (depth : Nat) (elements : List Json) (hv : AllProper elements) :
    Spells (indentedElements depth elements) (elementTokens elements) := by
  match elements, hv with
  | [], _ => exact (spells_newLine depth).append (spells_token .closeBracket)
  | v :: rest, hv =>
      simp only [indentedElements, elementTokens, List.append_assoc, List.cons_append]
      exact .token .comma ((spells_newLine _).append
        ((spells_indented _ v hv.1).append (spells_indentedElements depth rest hv.2)))

theorem spells_indentedMembers (depth : Nat) (members : List (Literal × Json))
    (hv : MembersProper members) :
    Spells (indentedMembers depth members) (memberTokens members) := by
  match members, hv with
  | [], _ => exact (spells_newLine depth).append (spells_token .closeBrace)
  | (name, v) :: rest, hv =>
      simp only [indentedMembers, memberTokens, List.append_assoc, List.cons_append]
      exact .token .comma ((spells_newLine _).append (.token (spelledAs_literalChars name)
        (.token .colon (.space rfl
          ((spells_indented _ v hv.1).append (spells_indentedMembers depth rest hv.2))))))

end

/-! ### Reading the tokens of a value -/

namespace Reader

theorem run_cons (r : Reader) (t : Token) (ts : List Token) :
    r.run (t :: ts) = (r.step t).bind fun s => s.run ts := rfl

/-- The first element of an array is read like any value, unless the array ends at once. -/
theorem run_elementOrEnd (outer : List Frame) (v : Json) (ts : List Token) :
    (Reader.elementOrEnd outer).run (tokens v ++ ts)
      = (Reader.value (.elements [] :: outer)).run (tokens v ++ ts) := by
  match v with
  | .null | .bool _ | .number _ | .text _ | .array [] | .object [] => rfl
  | .array (_ :: _) => simp only [tokens, List.cons_append]; rfl
  | .object ((_, _) :: _) => simp only [tokens, List.cons_append]; rfl

mutual

/-- **Reading the tokens of a value where one is due completes it.** -/
theorem run_tokens (outer : List Frame) (v : Json) (ts : List Token) :
    (Reader.value outer).run (tokens v ++ ts) = (Reader.complete outer v).run ts := by
  match v with
  | .null | .bool _ | .number _ | .text _ | .array [] | .object [] => rfl
  | .array (v :: rest) =>
      simp only [tokens, List.cons_append, List.append_assoc]
      show (Reader.elementOrEnd outer).run _ = _
      rw [run_elementOrEnd, run_tokens, run_elementTokens]
      rfl
  | .object ((name, v) :: rest) =>
      simp only [tokens, List.cons_append, List.append_assoc]
      show (Reader.value (.members [] name :: outer)).run _ = _
      rw [run_tokens, run_memberTokens]
      rfl

theorem run_elementTokens (outer : List Frame) (gathered : List Json) (v : Json)
    (rest : List Json) (ts : List Token) :
    (Reader.complete (.elements gathered :: outer) v).run (elementTokens rest ++ ts)
      = (Reader.complete outer (.array (gathered.reverse ++ v :: rest))).run ts := by
  match rest with
  | [] =>
      show (Reader.complete outer (.array (v :: gathered).reverse)).run ts = _
      rw [List.reverse_cons]
  | w :: rest =>
      simp only [elementTokens, List.cons_append, List.append_assoc]
      show (Reader.value (.elements (v :: gathered) :: outer)).run _ = _
      rw [run_tokens, run_elementTokens, List.reverse_cons, List.append_assoc]
      rfl

theorem run_memberTokens (outer : List Frame) (gathered : List (Literal × Json)) (name : Literal)
    (v : Json) (rest : List (Literal × Json)) (ts : List Token) :
    (Reader.complete (.members gathered name :: outer) v).run (memberTokens rest ++ ts)
      = (Reader.complete outer (.object (gathered.reverse ++ (name, v) :: rest))).run ts := by
  match rest with
  | [] =>
      show (Reader.complete outer (.object ((name, v) :: gathered).reverse)).run ts = _
      rw [List.reverse_cons]
  | (next, w) :: rest =>
      simp only [memberTokens, List.cons_append, List.append_assoc]
      show (Reader.value (.members ((name, v) :: gathered) next :: outer)).run _ = _
      rw [run_tokens, run_memberTokens, List.reverse_cons, List.append_assoc]
      rfl

end

/-- Behind a number, a value is complete. -/
theorem eq_complete_of_number {r s : Reader} {n : Numeral} (h : r.step (.number n) = some s) :
    ∃ outer, s = .complete outer (.number n) := by
  cases r with
  | value outer => exact ⟨outer, (Option.some.inj h).symm⟩
  | elementOrEnd outer => exact ⟨_, (Option.some.inj h).symm⟩
  | nameOrEnd outer => cases h
  | nextName outer gathered => cases h
  | colon outer gathered name => cases h
  | complete outer v =>
      cases outer with
      | nil => cases h
      | cons frame outer => cases frame <;> cases h

theorem afterValue?_number (v : Json) (outer : List Frame) (n : Numeral) :
    afterValue? v outer (.number n) = none := by
  cases outer with
  | nil => rfl
  | cons frame outer => cases frame <;> rfl

/-- In what can be read, no two numbers stand side by side. -/
theorem numbersApart_of_run {r s : Reader} {ts : List Token} (h : r.run ts = some s) :
    NumbersApart ts := by
  induction ts generalizing r with
  | nil => exact .nil
  | cons t rest ih =>
      rw [run_cons, Option.bind_eq_some_iff] at h
      obtain ⟨next, hnext, hrest⟩ := h
      refine List.isChain_cons.mpr ⟨fun u hu ht hnumber => ?_, ih hrest⟩
      cases rest with
      | nil => cases hu
      | cons w rest =>
          cases hu
          cases t with
          | number n =>
              obtain ⟨outer, rfl⟩ := eq_complete_of_number hnext
              cases u with
              | number m =>
                  rw [run_cons, step, afterValue?_number] at hrest
                  cases hrest
              | _ => exact hnumber
          | _ => exact ht

end Reader

/-! ### Round trips -/

/-- **A text that spells the tokens of a value is read as that value.** -/
theorem read?_of_spells {text : String} {v : Json} (h : v.SpelledAs text) :
    read? text = some v := by
  have hrun := Reader.run_tokens [] v []
  rw [List.append_nil] at hrun
  have hapart : NumbersApart (tokens v) := Reader.numbersApart_of_run hrun
  rw [read?, Spells.tokens? h hapart, Option.bind_some, ofTokens?, hrun]
  rfl

/-- A text with the characters of the compact form is a way of writing the value. -/
theorem spelledAs_of_compactChars {v : Json} {text : String} (h : text.toList = compactChars v)
    (hv : v.Proper) : v.SpelledAs text := by
  rw [SpelledAs, h]
  exact spells_compact v hv

theorem read?_compact {v : Json} (hv : v.Proper) : read? v.compact = some v :=
  read?_of_spells (spelledAs_of_compactChars String.toList_ofList hv)

theorem read?_indented {v : Json} (hv : v.Proper) : read? v.indented = some v := by
  refine read?_of_spells ?_
  rw [SpelledAs, indented, String.toList_ofList]
  exact spells_indented 0 v hv

end Json

end AdaptiveMtu
