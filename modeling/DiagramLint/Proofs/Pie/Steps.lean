-- What one step of the pie chart lexer takes, told from the characters that
-- are left. Where these say it, the step takes it, whatever the text goes on
-- with behind them.
import DiagramLint.Proofs.Lexing.Clean
import DiagramLint.Proofs.Pie.Turns

namespace DiagramLint

namespace Pie

variable {s s' : Reader Kind} {c : Char} {rest : Text} {y : Yield Kind}

/-- What a step takes from a text that goes on with `c` and `rest`. -/
inductive Took (s : Reader Kind) (c : Char) (rest : Text) : Yield Kind → Prop where
  | blank (hb : Cursor.isBlankChar c = true) : Took s c rest (.nothing s.cursor.next)
  | newline (hn : c = '\n') : Took s c rest (lexeme .newline 1 s.cursor)
  | comment (hc : c = '%' ∧ rest.head? = some '%') : Took s c rest (.nothing s.cursor.takeLine.2)
  | colon (hc : c = ':') : Took s c rest (lexeme .colon 1 s.cursor)
  | str {image : Text} (hc : c = '"') (hi : Quoted.read rest = .closed image) :
    Took s c rest (lexeme .str (image.length + 1) s.cursor)
  | number (hc : (c.isDigit || (c == '-' && rest.head?.any Char.isDigit)) = true) :
    Took s c rest (lexeme .number ((rest.takeWhile isNumberChar).length + 1) s.cursor)
  | word (hc : isPieWordChar c = true) (hp : ¬ (c = '%' ∧ rest.head? = some '%'))
    (hd : (c.isDigit || (c == '-' && rest.head?.any Char.isDigit)) = false) :
    Took s c rest (word s)

/-- Without an error, a step that leads on takes one of these. -/
theorem lexStep_took (hl : lexStep.Leads s s') (hrest : s.cursor.rest = c :: rest) :
    Took s c rest (lexStep s) := by
  have he := hl.errors
  have hm := hl.moves
  unfold lexStep at he hm ⊢
  rw [hrest] at he hm ⊢
  dsimp only at he hm ⊢
  split
  · exact .blank ‹_›
  · rename_i hb
    rw [if_neg hb] at he hm
    split
    · exact .newline ‹_›
    · rename_i hn
      rw [if_neg hn] at he hm
      split
      · exact .comment ‹_›
      · rename_i hcomment
        rw [if_neg hcomment] at he hm
        split
        · exact .colon ‹_›
        · rename_i hcolon
          rw [if_neg hcolon] at he hm
          split
          · rename_i hquote
            rw [if_pos hquote] at he
            unfold quotedString at he ⊢
            split
            · exact .str hquote ‹_›
            · rename_i hopen
              rw [hopen] at he
              cases he
          · rename_i hquote
            rw [if_neg hquote] at he hm
            split
            · exact .number ‹_›
            · rename_i hnumber
              rw [if_neg hnumber] at hm
              have hwhite : isWhiteSpace c = false := by
                rw [← Bool.not_eq_true]
                intro hw
                rw [word_of_isWhiteSpace hrest hw, hrest] at hm
                exact absurd hm (Nat.lt_irrefl _)
              exact .word (by simp [isPieWordChar, hwhite, hcolon, hquote]) hcomment
                (Bool.not_eq_true _ ▸ hnumber)

/-- A number does not start with a character that is read as something else. -/
theorem ne_of_number (hc : (c.isDigit || (c == '-' && rest.head?.any Char.isDigit)) = true) :
    ∀ d ∈ [' ', '\t', '\r', '\n', '%', ':', '"'], c ≠ d := by
  rintro d hd rfl
  have hall : ∀ d ∈ [' ', '\t', '\r', '\n', '%', ':', '"'],
      d.isDigit = false ∧ (d == '-') = false := forall_mem_of_all (by decide)
  rw [(hall c hd).1, (hall c hd).2] at hc
  cases hc

/-- A word does not start with a character that ends one. -/
theorem ne_of_isPieWordChar (hc : isPieWordChar c = true) :
    ∀ d ∈ [' ', '\t', '\r', '\n', ':', '"'], c ≠ d := by
  rintro d hd rfl
  have hall : ∀ d ∈ [' ', '\t', '\r', '\n', ':', '"'], isPieWordChar d = false :=
    forall_mem_of_all (by decide)
  rw [hall c hd] at hc
  cases hc

/-- A step takes what the characters left say. -/
theorem Took.lexStep_eq (h : Took s c rest y) (hrest : s.cursor.rest = c :: rest) :
    lexStep s = y := by
  unfold lexStep
  rw [hrest]
  cases h with
  | blank hb => exact if_pos hb
  | newline hn =>
    subst hn
    rfl
  | comment hc =>
    obtain ⟨rfl, hnext⟩ := hc
    simp [Cursor.isBlankChar, hnext]
  | colon hc =>
    subst hc
    rfl
  | str hc hi =>
    subst hc
    simp [Cursor.isBlankChar, quotedString, hi]
  | number hc =>
    have hne := ne_of_number hc
    simp only [List.mem_cons, List.not_mem_nil, or_false, forall_eq_or_imp, forall_eq] at hne
    simp [Cursor.isBlankChar, hne, hc]
  | word hc hp hd =>
    have hne := ne_of_isPieWordChar hc
    simp only [List.mem_cons, List.not_mem_nil, or_false, forall_eq_or_imp, forall_eq] at hne
    simp [Cursor.isBlankChar, hne, hp, hd]

theorem Took.errors_eq (h : Took s c rest y) : y.errors = [] := by
  cases h with
  | word =>
    unfold DiagramLint.Pie.word
    dsimp only
    split <;> rfl
  | _ => rfl

/-- Stray white space is not taken. -/
theorem Took.not_isStray (h : Took s c rest y) : ¬ IsStray c := by
  intro hc
  obtain ⟨hwhite, hblank, hn⟩ := isStray_iff.mp hc
  cases h with
  | blank hb =>
    rw [hblank] at hb
    cases hb
  | newline h => exact hn h
  | comment h =>
    rw [h.1] at hwhite
    cases hwhite
  | colon h | str h =>
    rw [h] at hwhite
    cases hwhite
  | number h =>
    rw [isDigit_of_isWhiteSpace hwhite, Bool.false_or, Bool.and_eq_true, beq_iff_eq] at h
    rw [h.1] at hwhite
    cases hwhite
  | word h =>
    simp [isPieWordChar, hwhite] at h

/-- A reader is on a clean run if the one behind what its step takes is. -/
theorem clean_of_took (h : Took s c rest y) (hrest : s.cursor.rest = c :: rest)
    (hc : lexStep.Clean (s.after y)) : lexStep.Clean s := by
  have hstep := h.lexStep_eq hrest
  obtain ⟨n, hpos, hle, hcursor⟩ := consumes_of_not_isStray hrest h.not_isStray
  have hmoves : (lexStep s).cursor.rest.length < s.cursor.rest.length := by
    rw [hcursor, Cursor.skip_rest, List.length_drop]
    omega
  exact .more ⟨by simp [hrest], hmoves, hstep ▸ h.errors_eq, rfl⟩ (hstep ▸ hc)

end Pie

end DiagramLint
