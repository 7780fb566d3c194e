-- The pie chart lexer covers its text wherever it comes to its end: a step
-- moves on and lays tokens over what it passes, or it stands before white
-- space that separates nothing, and stays there.
import DiagramLint.Proofs.Lexing.Tiling
import DiagramLint.Proofs.Pie.Lexer

namespace DiagramLint.Pie

/-- A step that moves on and covers what it passes. -/
abbrev Passes (s : Cursor) (y : Yield Kind) : Prop := y.Passes .eof .newline .text s

variable {s : Cursor}

theorem passes_lexeme {kind : Kind} {n : Nat} (he : kind ≠ .eof) (hk : kind ≠ .newline)
    (hn : 0 < n) (hle : n ≤ s.restOfLine.length) : Passes s (lexeme kind n s) :=
  Yield.passes_token he (.inline hk hn hle)

theorem passes_quotedString {rest : Text} (h : s.rest = '"' :: rest) :
    Passes s (quotedString rest s) := by
  unfold quotedString
  split
  · rename_i image hread
    obtain ⟨hpre, hline, hlast⟩ := Quoted.read_closed hread
    have hall : '"' :: image <+: s.rest := by
      rw [h]
      exact (List.prefix_append_right_inj ['"']).mpr hpre
    refine passes_lexeme (by decide) (by decide) (Nat.succ_pos _) ?_
    refine s.length_le_restOfLine hall (by simpa using hline) ?_
    rw [List.getLast?_cons, hlast]
    decide
  · exact Yield.passes_error _ (Nat.succ_pos _)

theorem passes_number {c : Char} {rest : Text} (h : s.rest = c :: rest)
    (hc : c.isDigit = true ∨ c = '-') :
    Passes s (lexeme .number ((rest.takeWhile isNumberChar).length + 1) s) := by
  have hall : c :: rest.takeWhile isNumberChar <+: s.rest := by
    rw [h]
    exact (List.prefix_append_right_inj [c]).mpr (List.takeWhile_prefix _)
  refine passes_lexeme (by decide) (by decide) (Nat.succ_pos _) ?_
  refine s.inline_length_le hall ?_
  have hnumber : ∀ d, isNumberChar d = true ∨ d = '-' → d ≠ '\n' ∧ d ≠ '\r' := by
    intro d hd
    constructor
    · rintro rfl
      revert hd
      decide
    · rintro rfl
      revert hd
      decide
  intro d hd
  rcases List.mem_cons.mp hd with rfl | hd
  · refine hnumber d ?_
    rcases hc with hc | hc
    · exact .inl (by simp [isNumberChar, hc])
    · exact .inr hc
  · exact hnumber d (.inl (List.mem_takeWhile_imp hd))

theorem passes_trailingText {kind : Kind} {n : Nat} (he : kind ≠ .eof)
    (hl : s.Lays Kind.newline .text kind n n) :
    Passes s { tokens := Token.ofText kind (s.rest.take n) s.place :: (trailingText (s.skip n)).1
               cursor := (trailingText (s.skip n)).2 } :=
  Yield.passes_trailing he (by decide) hl

theorem wordKind_cases (r : Reader Kind) (w : String) :
    wordKind r w ≠ .eof ∧ wordKind r w ≠ .newline := by
  unfold wordKind
  dsimp only
  split
  · decide
  · split
    · decide
    · split <;> decide

theorem passes_word {r : Reader Kind} {c : Char} {rest : Text} (h : r.cursor.rest = c :: rest)
    (hc : isPieWordChar c = true) : Passes r.cursor (word r) := by
  have hpos : 0 < (r.cursor.rest.takeWhile isPieWordChar).length := by simp [h, hc]
  have hle := r.cursor.takeWhile_length_le (p := isPieWordChar) (by decide) (by decide)
  unfold word
  dsimp only [Cursor.takeWhile, Cursor.take]
  obtain ⟨heof, hnewline⟩ := wordKind_cases r
    (String.ofList (r.cursor.rest.take (r.cursor.rest.takeWhile isPieWordChar).length))
  split
  · exact passes_trailingText heof (.inline hnewline hpos hle)
  · exact (Yield.passes_token heof (.inline hnewline hpos hle)).header _

/-- A step moves on, or it stays before white space that separates nothing. -/
theorem lexStep_passes_or_stays {r : Reader Kind} {c : Char} {rest : Text}
    (h : r.cursor.rest = c :: rest) :
    Passes r.cursor (lexStep r) ∨
      (lexStep r).cursor = r.cursor ∧ isWhiteSpace c = true ∧ Cursor.isBlankChar c = false ∧
        c ≠ '\n' := by
  have hhead : r.cursor.rest.head? = some c := by rw [h]; rfl
  unfold lexStep
  rw [h]
  dsimp only
  split
  · rename_i hb
    exact .inl (Yield.passes_gap (.blank hhead hb))
  · rename_i hb
    rw [Bool.not_eq_true] at hb
    split
    · rename_i hn
      rw [hn] at hhead
      exact .inl (Yield.passes_token (by decide) (.lineFeed hhead))
    · rename_i hn
      have hone := Cursor.one_le_restOfLine h hb hn
      split
      · rename_i hcomment
        exact .inl (Yield.passes_gap (Cursor.gap_of_percent h hcomment))
      · split
        · exact .inl (passes_lexeme (by decide) (by decide) Nat.one_pos hone)
        · rename_i hcolon
          split
          · rename_i hquote
            rw [hquote] at h
            exact .inl (passes_quotedString h)
          · rename_i hquote
            split
            · rename_i hnumber
              refine .inl (passes_number h ?_)
              simp only [Bool.or_eq_true, Bool.and_eq_true, beq_iff_eq] at hnumber
              exact hnumber.imp_right And.left
            · by_cases hw : isWhiteSpace c = true
              · exact .inr ⟨word_of_isWhiteSpace h hw, hw, hb, hn⟩
              · exact .inl (passes_word h (by simp [isPieWordChar, hw, hcolon, hquote]))

theorem lexStep_covers : LexStep.Covers .eof .newline .text lexStep := by
  intro r hr hlt
  obtain ⟨c, rest, hrest⟩ := List.exists_cons_of_ne_nil hr
  rcases lexStep_passes_or_stays hrest with hpass | ⟨hstay, -⟩
  · exact hpass.covers
  · rw [hstay] at hlt
    exact absurd hlt (Nat.lt_irrefl _)

/-- A scan comes to its end where all white space is blanks and line feeds. -/
theorem scan_finishes {t : Text}
    (h : ∀ c ∈ t, isWhiteSpace c = true → Cursor.isBlankChar c = true ∨ c = '\n') :
    ∃ l, scan t = .finished l := by
  refine Scan.exists_finished (P := fun r => ∀ c ∈ r.cursor.rest, isWhiteSpace c = true →
    Cursor.isBlankChar c = true ∨ c = '\n') ?_ Kind.eof (Reader.ofText t) h
  intro r hP hr
  obtain ⟨c, rest, hrest⟩ := List.exists_cons_of_ne_nil hr
  rcases lexStep_passes_or_stays hrest with hpass | ⟨-, hw, hb, hn⟩
  · refine ⟨hpass.moves, ?_⟩
    obtain ⟨n, -, hmove⟩ := hpass.moves
    intro d hd
    change d ∈ (lexStep r).cursor.rest at hd
    rw [hmove, Cursor.skip_rest] at hd
    exact hP d (List.mem_of_mem_drop hd)
  · rcases hP c (by rw [hrest]; exact List.mem_cons_self) hw with hblank | hnl
    · rw [hb] at hblank
      cases hblank
    · exact absurd hnl hn

/-- A check over the characters of a text that its scan comes to its end. -/
theorem scan_finishes_of_all {t : Text}
    (h : t.all (fun c => !isWhiteSpace c || Cursor.isBlankChar c || c == '\n') = true) :
    ∃ l, scan t = .finished l :=
  scan_finishes fun c hc hw => by simpa [hw] using List.all_eq_true.mp h c hc

end DiagramLint.Pie
