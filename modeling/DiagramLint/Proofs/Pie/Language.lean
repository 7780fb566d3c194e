-- Every finding about a pie chart stands behind its heading, as far as its
-- repair asks for that.
import DiagramLint.Pie.Language
import DiagramLint.Proofs.Header.Passes
import DiagramLint.Proofs.Pie.Parser

namespace DiagramLint.Pie

open Heading

variable {g : Heading} {t : Text}

/-! ## Tokens -/

theorem escapeFinding_behind {tok : Tok} {d : Diagnostic} (h : tok.kind = .str → g.line ≤ tok.line)
    (hd : escapeFinding? tok = some d) : g.Behind t d := by
  unfold escapeFinding? at hd
  split at hd
  · rename_i hk
    obtain ⟨i, -, rfl⟩ := Option.map_eq_some_iff.mp hd
    exact behind_of_line rfl (line_le_made (h hk)) (by decide) (by decide)
  · cases hd

/-- Strings stand on the header line or below, whether the chart has a header or not. -/
theorem line_le_of_str (hg : g.Opens t) (hw : String.ofList g.word ∈ headers) :
    ∀ tok ∈ (scan t).lexed.tokens, tok.kind = .str → g.line ≤ tok.line := by
  intro tok hm hs
  have hskip : ∀ {k : Kind}, tok.kind = k → k ≠ .str → g.line ≤ tok.line :=
    fun hk hne => absurd (hk.symm.trans hs) hne
  rcases leads hg hw with hleads | ⟨nls, head, rest, hts, hn, hk, hr⟩
  · rcases hleads.token_cases tok hm with hn | hn | htrails
    · exact hskip hn (by decide)
    · exact hskip hn (by decide)
    · exact htrails.line_le
  · rw [hts] at hm
    rcases List.mem_append.mp hm with hm | hm
    · exact hskip (hn tok hm) (by decide)
    · rcases List.mem_cons.mp hm with rfl | hm
      · exact hskip hk (by decide)
      · exact hr tok hm

/-! ## Errors and the tree -/

theorem explain_behind {e : ParseError} (h : e.From (g.Trails Kind.isSolid t)) :
    g.Behind t (explain e) := by
  cases e with
  | missingColon place =>
    obtain ⟨tok, htok, hs, rfl⟩ := h
    exact behind_of_past rfl (htok.past hs).endPlace.made (by decide)
  | misspelledKeyword place word suggestion =>
    obtain ⟨tok, htok, hs, rfl, -⟩ := h
    exact behind_of_past rfl (htok.past hs).made (by decide)
  | unquotedLabel place length label =>
    exact behind_of_code rfl (by decide) (by decide) (by decide)
  | unexpected place length found expected =>
    exact behind_of_code rfl (by decide) (by decide) (by decide)

theorem parse_errors_behind (hg : g.Opens t) (hw : String.ofList g.word ∈ headers) :
    ∀ e ∈ (parse (scan t).lexed.tokens).errors, g.Behind t (explain e) := by
  intro e he
  rcases leads hg hw with hleads | ⟨nls, head, rest, hts, hn, hk, -⟩
  · generalize (scan t).lexed.tokens = ts at hleads he
    cases hleads with
    | stalled hall =>
      rw [parse_newlines hall] at he
      cases he
    | headed hn hk hl hr => exact explain_behind (parse_keeps hn hk hr e he)
  · rw [hts, parse_headless hn hk] at he
    rw [List.mem_singleton.mp he]
    exact behind_of_code rfl (by decide) (by decide) (by decide)

theorem valueFindings_behind (entry : Entry) (strict : Bool) :
    ∀ d ∈ valueFindings entry strict, g.Behind t d := by
  intro d hd
  unfold valueFindings at hd
  dsimp only at hd
  split at hd
  · rw [List.mem_singleton.mp hd]
    exact behind_of_code rfl (by decide) (by decide) (by decide)
  · split at hd
    · rw [List.mem_singleton.mp hd]
      exact behind_of_code rfl (by decide) (by decide) (by decide)
    · cases hd

theorem entryFindings_behind (strict : Bool) (seen : List (String × Nat)) (entries : List Entry) :
    ∀ d ∈ entryFindings strict seen entries, g.Behind t d := by
  induction entries generalizing seen with
  | nil => exact fun _ hd => by cases hd
  | cons entry rest ih =>
    intro d hd
    rcases List.mem_append.mp hd with hd | hd
    · exact valueFindings_behind entry strict d hd
    · split at hd
      · rcases List.mem_cons.mp hd with rfl | hd
        · exact behind_of_code rfl (by decide) (by decide) (by decide)
        · exact ih _ d hd
      · exact ih _ d hd

/-! ## The grammar -/

/-- A pie chart is linted behind its heading. -/
theorem oversees (hg : g.Opens t) (hw : String.ofList g.word ∈ headers) (options : LintOptions) :
    g.Oversees grammar t options (scan t).lexed where
  postLex := by
    intro d hd
    obtain ⟨tok, hm, hf⟩ := List.mem_filterMap.mp hd
    exact escapeFinding_behind (line_le_of_str hg hw tok hm) hf
  errors := parse_errors_behind hg hw
  analysis := by
    intro chart _ found hf
    cases hf
    exact entryFindings_behind options.strict [] chart.entries
  postParse := fun _ _ _ hd => by cases hd

end DiagramLint.Pie
