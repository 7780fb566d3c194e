-- Line feeds in what lexers yield. Only the token of a line feed has one in
-- its image, and an error names at most the character it is about, which is
-- never a line feed.
import DiagramLint.Proofs.Flowchart.Tiles
import DiagramLint.Proofs.Lexing.Faithful
import DiagramLint.Proofs.Pie.Tiles
import DiagramLint.Proofs.Sequence.Tiles

namespace DiagramLint

/-! ## Strings on one line -/

/-- A string without line feeds. -/
def OneLine (s : String) : Prop := '\n' ∉ s.toList

instance (s : String) : Decidable (OneLine s) := inferInstanceAs (Decidable ('\n' ∉ s.toList))

@[simp] theorem oneLine_append (a b : String) : OneLine (a ++ b) ↔ OneLine a ∧ OneLine b := by
  simp [OneLine]

@[simp] theorem oneLine_ofList (t : Text) : OneLine (String.ofList t) ↔ '\n' ∉ t := by
  simp [OneLine]

@[simp] theorem oneLine_push (s : String) (c : Char) :
    OneLine (s.push c) ↔ OneLine s ∧ c ≠ '\n' := by
  simp [OneLine, eq_comm]

@[simp] theorem oneLine_repr (n : Nat) : OneLine n.repr := by
  unfold OneLine
  rw [Nat.toList_repr]
  intro hm
  have hdigit := Nat.isDigit_of_mem_toDigits (by omega) (by omega) hm
  revert hdigit
  decide

theorem oneLine_intercalate {sep : String} (hs : OneLine sep) {l : List String}
    (h : ∀ s ∈ l, OneLine s) : OneLine (sep.intercalate l) := by
  induction l with
  | nil => simp [OneLine]
  | cons s rest ih =>
    obtain ⟨hfirst, hrest⟩ := List.forall_mem_cons.mp h
    cases rest with
    | nil => simpa using hfirst
    | cons next more =>
      rw [String.intercalate_cons_cons]
      simp [hfirst, hs, ih hrest]

/-! ## Tokens -/

variable {κ : Type}

/-- The token is on one line, unless it is a line feed. -/
def Token.Inline (newline : κ) (tok : Token κ) : Prop := tok.kind = newline ∨ OneLine tok.image

theorem Token.Inline.image {newline : κ} {tok : Token κ} (h : tok.Inline newline)
    (hn : tok.kind ≠ newline) : OneLine tok.image :=
  h.resolve_left hn

/-- The characters laid under a token that is no line feed are on one line. -/
theorem Cursor.Lays.newline_not_mem {newline text kind : κ} {s : Cursor} {m n : Nat}
    (h : s.Lays newline text kind m n) (hk : kind ≠ newline) : '\n' ∉ s.rest.take m := by
  cases h with
  | inline _ _ hle => exact s.newline_not_mem_take (hle.trans s.restOfLine_length_le)
  | lineFeed => exact absurd rfl hk
  | trailing _ =>
    exact s.newline_not_mem_take ((trimEnd_length_le s).trans s.restOfLine_length_le)

theorem Tiled.inline {eof newline text : κ} {lossy : Prop} {s : Cursor} {toks : List (Token κ)}
    (h : Tiled eof newline text lossy s toks) : ∀ tok ∈ toks, tok.Inline newline := by
  induction h with
  | done _ =>
    intro tok hm
    rw [List.mem_singleton.mp hm]
    exact .inr (by simp [Token.ofText, OneLine])
  | gap _ _ ih => exact ih
  | lost _ _ _ ih => exact ih
  | token _ hl _ ih =>
    refine List.forall_mem_cons.mpr ⟨?_, ih⟩
    refine Classical.or_iff_not_imp_left.mpr fun hk => ?_
    simp only [Token.ofText, oneLine_ofList]
    exact hl.newline_not_mem hk

/-- Every token of a scan that comes to its end is on one line or a line feed. -/
theorem LexStep.Covers.inline {eof newline text : κ} {step : LexStep κ}
    (h : step.Covers eof newline text) {t : Text} {l : Lexed κ}
    (hl : Scan.run step eof (Reader.ofText t) = .finished l) : ∀ tok ∈ l.tokens, tok.Inline newline :=
  (h.run (Reader.ofText t) hl).inline

theorem LexError.oneLine_at {message : String} (h : OneLine message) (place : Position)
    (length : Nat) : OneLine (LexError.at place length message).message := h

/-! ## Flowcharts -/

namespace Flowchart

theorem inline_tokenize (t : Text) : ∀ tok ∈ (tokenize t).tokens, tok.Inline .newline := by
  obtain ⟨l, hl⟩ := scan_finishes t
  rw [tokenize, hl]
  exact lexStep_covers.inline hl

theorem unexpectedChar_oneLine {c : Char} (hc : c ≠ '\n') (s : Cursor) :
    ∀ e ∈ (unexpectedChar c s).errors, OneLine e.message := by
  intro e he
  rw [List.mem_singleton.mp he]
  refine LexError.oneLine_at ?_ _ _
  split
  · decide
  · simp +decide [hc]

theorem label_oneLine (opener : String) (s : Cursor) :
    ∀ e ∈ (label opener s).errors, OneLine e.message := by
  unfold label
  intro e he
  split at he
  · split at he
    · rw [List.mem_singleton.mp he]
      exact LexError.oneLine_at (by decide) _ _
    · cases he
  · dsimp only at he
    split at he
    · cases he
    · cases he

theorem word_errors (s : Reader Kind) : (word s).errors = [] := by
  unfold word
  dsimp only
  split <;> rfl

theorem wideToken_oneLine (s : Reader Kind) {c : Char} (hc : c ≠ '\n') :
    ∀ e ∈ (wideToken s c).errors, OneLine e.message := by
  unfold wideToken
  dsimp only
  split
  · exact fun _ he => by cases he
  · split
    · exact fun _ he => by cases he
    · split
      · exact unexpectedChar_oneLine hc _
      · split
        · exact label_oneLine _ _
        · split
          · exact fun _ he => by cases he
          · split
            · rw [word_errors]
              exact fun _ he => by cases he
            · exact unexpectedChar_oneLine hc _

theorem lexStep_oneLine (s : Reader Kind) : ∀ e ∈ (lexStep s).errors, OneLine e.message := by
  unfold lexStep
  split
  · exact fun _ he => by cases he
  · split
    · exact fun _ he => by cases he
    · split
      · exact fun _ he => by cases he
      · rename_i hc
        split
        · exact fun _ he => by cases he
        · split
          · exact fun _ he => by cases he
          · split
            · exact fun _ he => by cases he
            · split
              · unfold edgeLabel
                dsimp only
                split
                · exact fun _ he => by cases he
                · intro e he
                  rw [List.mem_singleton.mp he]
                  exact LexError.oneLine_at (by decide) _ _
              · exact wideToken_oneLine s hc

theorem errors_oneLine (t : Text) : ∀ e ∈ (tokenize t).errors, OneLine e.message :=
  Scan.errors_all (P := fun e => OneLine e.message) lexStep_oneLine (Reader.ofText t)

end Flowchart

/-! ## Sequence diagrams -/

namespace Sequence

theorem inline_tokenize (t : Text) : ∀ tok ∈ (tokenize t).tokens, tok.Inline .newline := by
  obtain ⟨l, hl⟩ := scan_finishes t
  rw [tokenize, hl]
  exact lexStep_covers.inline hl

theorem word_errors (s : Reader Kind) : (word s).errors = [] := by
  unfold word
  dsimp only
  split <;> rfl

theorem lexStep_oneLine (s : Reader Kind) : ∀ e ∈ (lexStep s).errors, OneLine e.message := by
  unfold lexStep
  split
  · exact fun _ he => by cases he
  · split
    · exact fun _ he => by cases he
    · split
      · exact fun _ he => by cases he
      · rename_i hc
        split
        · exact fun _ he => by cases he
        · split
          · exact fun _ he => by cases he
          · split
            · exact fun _ he => by cases he
            · split
              · rw [word_errors]
                exact fun _ he => by cases he
              · split
                · exact fun _ he => by cases he
                · intro e he
                  rw [List.mem_singleton.mp he]
                  exact LexError.oneLine_at (by simp +decide [hc]) _ _

theorem errors_oneLine (t : Text) : ∀ e ∈ (tokenize t).errors, OneLine e.message :=
  Scan.errors_all (P := fun e => OneLine e.message) lexStep_oneLine (Reader.ofText t)

end Sequence

/-! ## Pie charts -/

namespace Pie

theorem inline_scan {t : Text} {l : Lexed Kind} (hl : scan t = .finished l) :
    ∀ tok ∈ l.tokens, tok.Inline .newline :=
  lexStep_covers.inline hl

theorem word_errors (s : Reader Kind) : (word s).errors = [] := by
  unfold word
  dsimp only
  split <;> rfl

theorem lexStep_oneLine (s : Reader Kind) : ∀ e ∈ (lexStep s).errors, OneLine e.message := by
  unfold lexStep
  split
  · exact fun _ he => by cases he
  · split
    · exact fun _ he => by cases he
    · split
      · exact fun _ he => by cases he
      · split
        · exact fun _ he => by cases he
        · split
          · exact fun _ he => by cases he
          · split
            · unfold quotedString
              split
              · exact fun _ he => by cases he
              · intro e he
                rw [List.mem_singleton.mp he]
                exact LexError.oneLine_at (by decide) _ _
            · split
              · exact fun _ he => by cases he
              · rw [word_errors]
                exact fun _ he => by cases he

theorem errors_oneLine (t : Text) : ∀ e ∈ (scan t).lexed.errors, OneLine e.message :=
  Scan.errors_all (P := fun e => OneLine e.message) lexStep_oneLine (Reader.ofText t)

end Pie

end DiagramLint
