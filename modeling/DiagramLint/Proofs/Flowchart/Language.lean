-- Every finding about a flowchart stands behind its heading, as far as its
-- repair asks for that.
import DiagramLint.Flowchart.Language
import DiagramLint.Proofs.Flowchart.Parser
import DiagramLint.Proofs.Header.Passes

namespace DiagramLint.Flowchart

open Heading

variable {g : Heading} {t : Text} {tok : Tok}

/-! ## Tokens -/

theorem quotedLabelFindings_behind (h : g.line ≤ tok.line) :
    ∀ d ∈ quotedLabelFindings tok, g.Behind t d := by
  intro d hd
  unfold quotedLabelFindings at hd
  split at hd
  · rw [List.mem_singleton.mp hd]
    exact behind_of_line rfl (line_le_made h) (by decide) (by decide)
  · rw [List.mem_singleton.mp hd]
    exact behind_of_line rfl (line_le_made h) (by decide) (by decide)
  · cases hd

theorem bareQuoteFindings_behind (h : g.line ≤ tok.line) :
    ∀ d ∈ bareQuoteFindings tok, g.Behind t d := by
  intro d hd
  unfold bareQuoteFindings at hd
  split at hd
  · rw [List.mem_singleton.mp hd]
    exact behind_of_line rfl (line_le_made h) (by decide) (by decide)
  · cases hd

theorem parenFindings_behind (h : g.line ≤ tok.line) :
    ∀ d ∈ parenFindings tok, g.Behind t d := by
  intro d hd
  unfold parenFindings at hd
  split at hd
  · rw [List.mem_singleton.mp hd]
    exact behind_of_line rfl (line_le_made h) (by decide) (by decide)
  · cases hd

theorem tokenFindings_behind (h : g.Trails Kind.isSolid t tok) (previous : Option Tok) :
    ∀ d ∈ tokenFindings previous tok, g.Behind t d := by
  intro d hd
  unfold tokenFindings at hd
  split at hd
  · rename_i hk
    rw [List.mem_singleton.mp hd]
    exact behind_of_past rfl (h.past (by rw [hk]; rfl)).made (by decide)
  · exact quotedLabelFindings_behind h.line_le d hd
  · rcases List.mem_append.mp hd with hd | hd
    · exact bareQuoteFindings_behind h.line_le d hd
    · split at hd
      · exact parenFindings_behind h.line_le d hd
      · cases hd
  · cases hd

theorem tokenChecks_behind {ts : List Tok}
    (h : ∀ tok ∈ ts, tok.kind = .newline ∨ tok.kind = .header ∨ g.Trails Kind.isSolid t tok)
    (previous : Option Tok) : ∀ d ∈ tokenChecks previous ts, g.Behind t d := by
  induction ts generalizing previous with
  | nil => exact fun _ hd => by cases hd
  | cons tok rest ih =>
    intro d hd
    rcases List.mem_append.mp hd with hd | hd
    · rcases h tok List.mem_cons_self with hk | hk | htrails
      -- neither a line end nor a header has findings of its own
      · simp only [tokenFindings, hk] at hd
        cases hd
      · simp only [tokenFindings, hk] at hd
        cases hd
      · exact tokenFindings_behind htrails previous d hd
    · exact ih (fun tok hm => h tok (List.mem_cons_of_mem _ hm)) _ d hd

/-! ## Errors and the tree -/

theorem explain_behind {e : ParseError} (h : e.From (g.Trails Kind.isSolid t)) :
    g.Behind t (explain e) := by
  cases e with
  | mismatchedCloser place found expected =>
    obtain ⟨tok, htok, rfl, -⟩ := h
    exact behind_of_line rfl (line_le_made htok.line_le) (by decide) (by decide)
  | unclosed place expected =>
    obtain ⟨tok, htok, rfl, -⟩ := h
    exact behind_of_line rfl (line_le_made htok.line_le) (by decide) (by decide)
  | missingArrow place length =>
    obtain ⟨tok, htok, hs, rfl⟩ := h
    exact behind_of_past rfl (htok.past hs).made (by decide)
  | trailingStatement place =>
    obtain ⟨tok, htok, hs, rfl⟩ := h
    exact behind_of_past rfl (htok.past hs).made (by decide)
  | misspelledKeyword place word suggestion =>
    obtain ⟨tok, htok, hs, rfl, -⟩ := h
    exact behind_of_past rfl (htok.past hs).made (by decide)
  | blockMissingEnd place openedAt =>
    exact behind_of_code rfl (by decide) (by decide) (by decide)
  | endWithoutBlock place => exact behind_of_code rfl (by decide) (by decide) (by decide)
  | unexpected place length found expected =>
    exact behind_of_code rfl (by decide) (by decide) (by decide)

theorem duplicateIds_behind (seen : List (String × Nat)) (ids : List (String × Position)) :
    ∀ d ∈ duplicateIds seen ids, g.Behind t d := by
  induction ids generalizing seen with
  | nil => exact fun _ hd => by cases hd
  | cons entry rest ih =>
    intro d hd
    unfold duplicateIds at hd
    split at hd
    · rcases List.mem_cons.mp hd with rfl | hd
      · exact behind_of_code rfl (by decide) (by decide) (by decide)
      · exact ih _ d hd
    · exact ih _ d hd

theorem analyze_behind {chart : Chart} (h : chart.headerLine = g.line) (ts : List Tok)
    (options : LintOptions) {found : List Diagnostic} (hf : analyze chart ts options = .ok found) :
    ∀ d ∈ found, g.Behind t d := by
  intro d hd
  unfold analyze at hf
  cases hr : directionRequired options with
  | error reason =>
    rw [hr] at hf
    cases hf
  | ok required =>
    rw [hr] at hf
    cases hf
    rcases List.mem_append.mp hd with hd | hd
    · split at hd
      · rw [List.mem_singleton.mp hd]
        exact behind_of_line rfl (line_le_made (Nat.le_of_eq h.symm)) (by decide) (by decide)
      · cases hd
    · exact duplicateIds_behind _ _ d hd

theorem reservedIds_behind (reported : List Diagnostic) (previous : Option Tok) (ts : List Tok) :
    ∀ d ∈ reservedIds reported previous ts, g.Behind t d := by
  induction ts generalizing reported previous with
  | nil => exact fun _ hd => by cases hd
  | cons tok rest ih =>
    intro d hd
    unfold reservedIds at hd
    dsimp only at hd
    split at hd
    · rcases List.mem_cons.mp hd with rfl | hd
      · exact behind_of_code rfl (by decide) (by decide) (by decide)
      · exact ih _ _ d hd
    · exact ih _ _ d hd

/-! ## The grammar -/

theorem parse_errors_behind {ts : List Tok}
    (h : g.Leads Kind.isSolid Kind.newline Kind.header t ts) :
    ∀ e ∈ (parse ts).errors, g.Behind t (explain e) := by
  cases h with
  | stalled hall =>
    rw [parse_newlines hall]
    exact fun _ he => by cases he
  | headed hn hk hl hr => exact fun e he => explain_behind ((parse_keeps hn hk hr).1 e he)

theorem headerLine_eq {ts : List Tok} (h : g.Leads Kind.isSolid Kind.newline Kind.header t ts) :
    ∀ chart ∈ (parse ts).tree, chart.headerLine = g.line := by
  intro chart hc
  cases h with
  | stalled hall =>
    rw [parse_newlines hall] at hc
    cases hc
  | headed hn hk hl hr => exact ((parse_keeps hn hk hr).2 chart hc).trans hl

/-- A flowchart is linted behind its heading. -/
theorem oversees (hg : g.Opens t) (hw : String.ofList g.word ∈ headers) (options : LintOptions) :
    g.Oversees grammar t options (tokenize t) where
  postLex := tokenChecks_behind (leads hg hw).token_cases none
  errors := parse_errors_behind (leads hg hw)
  analysis := by
    intro chart hc found hf
    exact analyze_behind (headerLine_eq (leads hg hw) chart hc) _ options hf
  postParse := fun _ prior => reservedIds_behind prior none _

end DiagramLint.Flowchart
