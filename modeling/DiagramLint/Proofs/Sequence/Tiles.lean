-- The sequence diagram lexer covers its text: every step moves on, and lays
-- tokens over what it passes, over blanks and comments apart.
import DiagramLint.Sequence.Lexer
import DiagramLint.Proofs.Lexing.Tiling

namespace DiagramLint.Sequence

/-- A step that moves on and covers what it passes. -/
abbrev Passes (s : Cursor) (y : Yield Kind) : Prop := y.Passes .eof .newline .text s

variable {s : Cursor}

theorem passes_lexeme {kind : Kind} {n : Nat} (he : kind ≠ .eof) (hk : kind ≠ .newline)
    (hn : 0 < n) (hle : n ≤ s.restOfLine.length) : Passes s (lexeme kind n s) :=
  Yield.passes_token he (.inline hk hn hle)

theorem passes_withTrailingText {kind : Kind} {n : Nat} (he : kind ≠ .eof)
    (hl : s.Lays Kind.newline .text kind n n) :
    Passes s (withTrailingText (Token.ofText kind (s.rest.take n) s.place) (s.skip n)) :=
  Yield.passes_trailing he (by decide) hl

theorem wordKind_cases (r : Reader Kind) (w : String) :
    wordKind r w ≠ .eof ∧ wordKind r w ≠ .newline := by
  unfold wordKind
  dsimp only
  split
  · decide
  · split <;> decide

theorem passes_word {r : Reader Kind} {c : Char} {rest : Text} (h : r.cursor.rest = c :: rest)
    (hc : isIdentChar c = true) : Passes r.cursor (word r) := by
  have hpos : 0 < (r.cursor.rest.takeWhile isIdentChar).length := by simp [h, hc]
  have hle := r.cursor.takeWhile_length_le (p := isIdentChar)
    (isIdentChar_of_isWhiteSpace (by decide)) (isIdentChar_of_isWhiteSpace (by decide))
  unfold word
  dsimp only [Cursor.takeWhile, Cursor.take]
  obtain ⟨heof, hnewline⟩ := wordKind_cases r
    (String.ofList (r.cursor.rest.take (r.cursor.rest.takeWhile isIdentChar).length))
  split
  · exact passes_withTrailingText heof (.inline hnewline hpos hle)
  · exact (Yield.passes_token heof (.inline hnewline hpos hle)).header _

theorem arrowAt?_length {line : Text} {kind : Kind} {n : Nat} (h : arrowAt? line = some (kind, n)) :
    kind.isArrow = true ∧ 0 < n ∧ n ≤ line.length := by
  unfold arrowAt? at h
  rw [Option.or_eq_some_iff] at h
  rcases h with h | ⟨-, h⟩
  · obtain ⟨a, ha, he⟩ := Option.map_eq_some_iff.mp h
    cases he
    exact ⟨rfl, length_of_find?_startsWith ha (by decide)⟩
  · obtain ⟨a, ha, he⟩ := Option.map_eq_some_iff.mp h
    cases he
    exact ⟨rfl, length_of_find?_startsWith ha (by decide)⟩

theorem lexStep_passes (r : Reader Kind) (hr : r.cursor.rest ≠ []) :
    Passes r.cursor (lexStep r) := by
  unfold lexStep
  split
  · rename_i hnil
    exact absurd hnil hr
  · rename_i c rest hrest
    have hhead : r.cursor.rest.head? = some c := by rw [hrest]; rfl
    split
    · rename_i hb
      exact Yield.passes_gap (.blank hhead hb)
    · rename_i hb
      split
      · rename_i hn
        rw [hn] at hhead
        exact Yield.passes_token (by decide) (.lineFeed hhead)
      · rename_i hn
        have hone := Cursor.one_le_restOfLine hrest (Bool.eq_false_iff.mpr hb) hn
        split
        · rename_i hcomment
          exact Yield.passes_gap (Cursor.gap_of_percent hrest hcomment)
        · split
          · rename_i hcolon
            have himage : [c] = r.cursor.rest.take 1 := by rw [hrest]; rfl
            rw [himage]
            exact passes_withTrailingText (by decide) (.inline (by decide) Nat.one_pos hone)
          · split
            · exact passes_lexeme (by decide) (by decide) Nat.one_pos hone
            · split
              · rename_i hc
                exact passes_word hrest hc
              · split
                · rename_i kind n harrow
                  obtain ⟨hkind, hpos, hle⟩ := arrowAt?_length harrow
                  refine passes_lexeme ?_ ?_ hpos hle
                  · rintro rfl
                    cases hkind
                  · rintro rfl
                    cases hkind
                · exact Yield.passes_error _ Nat.one_pos

/-- The scan comes to its end from every reader on. -/
theorem run_finishes (r : Reader Kind) : ∃ l, Scan.run lexStep .eof r = .finished l := by
  refine Scan.exists_finished (P := fun _ => True) ?_ Kind.eof r trivial
  intro r _ hr
  exact ⟨(lexStep_passes r hr).moves, trivial⟩

theorem scan_finishes (t : Text) : ∃ l, scan t = .finished l := run_finishes (Reader.ofText t)

theorem scan_eq_finished (t : Text) : scan t = .finished (tokenize t) := by
  obtain ⟨l, hl⟩ := scan_finishes t
  rw [tokenize, hl]
  rfl

theorem lexStep_covers : LexStep.Covers .eof .newline .text lexStep :=
  fun r hr _ => (lexStep_passes r hr).covers

end DiagramLint.Sequence
