-- Every finding about a sequence diagram stands behind its heading, as far
-- as its repair asks for that.
import DiagramLint.Proofs.Header.Passes
import DiagramLint.Proofs.Sequence.Parser
import DiagramLint.Sequence.Language

namespace DiagramLint.Sequence

open Heading

variable {g : Heading} {t : Text}

theorem arrowFinding_behind {ts : List Tok}
    (h : g.Leads Kind.isSolid Kind.newline Kind.header t ts) :
    ∀ d ∈ ts.filterMap arrowFinding?, g.Behind t d := by
  -- Line ends and the header are no arrows; all other tokens are behind the heading.
  have hsolid : ∀ tok ∈ ts, tok.kind = .invalidArrow → g.Past t tok.place := by
    intro tok hm hk
    rcases h.token_cases tok hm with hn | hn | htrails
    · rw [hn] at hk
      cases hk
    · rw [hn] at hk
      cases hk
    · exact htrails.past (by rw [hk]; rfl)
  intro d hd
  obtain ⟨tok, hm, hf⟩ := List.mem_filterMap.mp hd
  unfold arrowFinding? at hf
  split at hf
  · rename_i hk
    cases hf
    exact behind_of_past rfl (hsolid tok hm hk).made (by decide)
  · cases hf

theorem explain_behind {e : ParseError} (h : e.From (g.Trails Kind.isSolid t)) :
    g.Behind t (explain e) := by
  cases e with
  | missingColon place =>
    obtain ⟨tok, htok, hs, rfl⟩ := h
    exact behind_of_past rfl (htok.past hs).endPlace.made (by decide)
  | misspelledKeyword place word suggestion =>
    obtain ⟨tok, htok, hs, rfl, -⟩ := h
    exact behind_of_past rfl (htok.past hs).made (by decide)
  | blockMissingEnd place keyword openedAt =>
    exact behind_of_code rfl (by decide) (by decide) (by decide)
  | endWithoutBlock place => exact behind_of_code rfl (by decide) (by decide) (by decide)
  | branchOutsideBlock place keyword parent =>
    exact behind_of_code rfl (by decide) (by decide) (by decide)
  | unexpected place length found expected =>
    exact behind_of_code rfl (by decide) (by decide) (by decide)

theorem parse_errors_behind {ts : List Tok}
    (h : g.Leads Kind.isSolid Kind.newline Kind.header t ts) :
    ∀ e ∈ (parse ts).errors, g.Behind t (explain e) := by
  cases h with
  | stalled hall =>
    rw [parse_newlines hall]
    exact fun _ he => by cases he
  | headed hn hk hl hr => exact fun e he => explain_behind (parse_keeps hn hk hr e he)

/-- A sequence diagram is linted behind its heading. -/
theorem oversees (hg : g.Opens t) (hw : String.ofList g.word ∈ headers) (options : LintOptions) :
    g.Oversees grammar t options (tokenize t) where
  postLex := arrowFinding_behind (leads hg hw)
  errors := parse_errors_behind (leads hg hw)
  analysis := by
    intro diagram _ found hf d hd
    cases hf
    cases hd
  postParse := fun _ _ _ hd => by cases hd

end DiagramLint.Sequence
