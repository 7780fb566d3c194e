-- What the dialects find can be repaired or declined: the characters that a
-- strategy looks at are in the line of the diagnostic, or there is one place
-- behind the line. So repairing a text comes to an end exactly when the lexer
-- comes to the end of every text on the way.
import DiagramLint.Linter.Basic
import DiagramLint.Proofs.Flowchart.Showing
import DiagramLint.Proofs.Linter.Codes
import DiagramLint.Proofs.Pie.Showing
import DiagramLint.Proofs.Repair.Frames
import DiagramLint.Proofs.Sequence.Showing

namespace DiagramLint

variable {t : Text} {d : Dialect} {x : Diagnostic} {options : LintOptions} {level : Level}

/-! ## Spans that end in their line -/

/-- Where a diagnostic points, what it spans ends at a number of 64 bits or in the line. -/
def Diagnostic.Fits (t : Text) (x : Diagnostic) : Prop :=
  ∀ c, Caret.of? t x = some c → c.Fits x

/-- The codes of the repairs that look at what a diagnostic spans. -/
def spanCodes : List String :=
  [Code.arrowInvalid, Code.seqArrowInvalid, Code.shapeMismatchedCloser, Code.shapeUnclosed]

theorem Registry.builtin_answers {code : String} {s : Strategy}
    (hs : Registry.builtin.get? code = some s) (h : code ∈ spanCodes → x.Fits t) :
    s.Answers t x := by
  rw [Registry.builtin_answers_iff hs]
  have hmem := Registry.mem_of_get? hs
  simp only [List.mem_cons, List.not_mem_nil, or_false, Prod.mk.injEq] at hmem
  rcases hmem with ⟨rfl, rfl⟩ | ⟨rfl, rfl⟩ | ⟨rfl, rfl⟩ | ⟨rfl, rfl⟩ | ⟨rfl, rfl⟩ | ⟨rfl, rfl⟩ |
    ⟨rfl, rfl⟩ | ⟨rfl, rfl⟩ | ⟨rfl, rfl⟩ | ⟨rfl, rfl⟩ | ⟨rfl, rfl⟩ | ⟨rfl, rfl⟩ | ⟨rfl, rfl⟩ |
    ⟨rfl, rfl⟩ | ⟨rfl, rfl⟩
  all_goals first
    | trivial
    | exact h (by decide)
    | exact fun c hc _ => h (by decide) c hc

theorem Diagnostic.Reads.fits {y : Text} (h : x.Reads t y) : x.Fits t := by
  obtain ⟨line, hline, hcolumn, htake, hlength⟩ := h
  intro c hc
  obtain ⟨hline', -⟩ := Caret.line?_of hc
  obtain rfl : line = c.line := Option.some.inj (hline.symm.trans hline')
  have hindex : c.index ≤ x.column - 1 := by
    obtain ⟨_, -, rfl⟩ := Option.map_eq_some_iff.mp hc
    exact Nat.min_le_left _ _
  have hle : x.spanLength ≤ c.line.length - (x.column - 1) := by
    rw [← hlength, ← htake, List.length_take, List.length_drop]
    exact Nat.min_le_right _ _
  have hpos : 1 ≤ x.spanLength := Nat.le_max_right _ _
  right
  omega

theorem Diagnostic.fits_of_spanLength (h : x.spanLength = 1) : x.Fits t := by
  intro c hc
  obtain ⟨-, hindex⟩ := Caret.line?_of hc
  right
  omega

/-- A diagnostic of a code that shows something spans what it shows. -/
theorem Diagnostic.Shows.fits (h : x.Shows t) {code : String} (hcode : x.code = some code)
    (hshowing : code ∈ showingCodes) : x.Fits t := by
  cases h with
  | other hc => exact absurd hcode (hc code hshowing)
  | link _ _ h | arrow _ _ h | escapedQuote _ h | rawQuote _ h | parenthesis _ _ h
  | closer _ _ _ h | keyword _ _ h | strayEnd _ h | duplicate _ h | value _ _ _ _ _ _ h =>
    exact h.fits

namespace Grammar

variable {κ τ ε : Type} {g : Grammar κ τ ε} {onTokens onTree last : List String} {lexed : Lexed κ}

/-- An unclosed shape is reported by the parser, and spans one character. -/
theorem Codes.fits (h : g.Codes onTokens onTree last) (hshow : g.AllShow t options lexed)
    (hno : Code.shapeUnclosed ∉
      Code.lexError :: Code.semanticError :: (onTokens ++ onTree ++ last))
    (hone : ∀ e, (g.explain e t).code = some Code.shapeUnclosed →
      (g.explain e t).spanLength = 1) :
    ∀ x ∈ (g.report t options lexed).diagnostics, ∀ code ∈ spanCodes, x.code = some code →
      x.Fits t := by
  intro x hx code hspan hcode
  by_cases hshowing : code ∈ showingCodes
  · exact (hshow.report x hx).fits hcode hshowing
  · have hrest : ∀ code ∈ spanCodes, code ∉ showingCodes → code = Code.shapeUnclosed := by decide
    obtain rfl := hrest code hspan hshowing
    obtain ⟨e, -, rfl⟩ := h.exists_error hx hcode hno
    exact Diagnostic.fits_of_spanLength (hone e hcode)

end Grammar

/-! ## The built-in dialects -/

/-- What a built-in dialect reports spans characters of its line where a repair looks at them. -/
theorem Dialect.fits_of_lint (hd : d ∈ builtin) {report : Report}
    (h : d.lint t options = .ok report) :
    ∀ x ∈ report.diagnostics, ∀ code ∈ spanCodes, x.code = some code → x.Fits t := by
  refine forall_of_lint hd (fun _ => ?_) (fun _ l hl => ?_) (fun _ => ?_) h
  · refine Flowchart.grammar_codes.fits (Flowchart.grammar_allShow t options) (by decide) ?_
    intro e
    cases e
    case unclosed => exact fun _ => rfl
    all_goals exact fun hcode => absurd (Option.some.inj hcode) (by decide)
  · refine Pie.grammar_codes.fits (Pie.grammar_allShow hl options) (by decide) ?_
    intro e
    cases e
    all_goals exact fun hcode => absurd (Option.some.inj hcode) (by decide)
  · refine Sequence.grammar_codes.fits (Sequence.grammar_allShow t options) (by decide) ?_
    intro e
    cases e
    all_goals exact fun hcode => absurd (Option.some.inj hcode) (by decide)

theorem answered_of_fits {ds : List Diagnostic}
    (h : ∀ x ∈ ds, ∀ code ∈ spanCodes, x.code = some code → x.Fits t) :
    Answered Registry.builtin level t ds := by
  intro x hx s hs
  obtain ⟨hbind, -⟩ := Option.filter_eq_some_iff.mp hs
  obtain ⟨code, hcode, hget⟩ := Option.bind_eq_some_iff.mp hbind
  exact Registry.builtin_answers hget fun hspan => h x hx code hspan hcode

namespace Dialect

theorem answered (hd : d ∈ builtin) {ds : List Diagnostic} (h : d.diagnostics options t = .ok ds) :
    Answered Registry.builtin level t ds := by
  obtain ⟨report, hreport, rfl⟩ := diagnostics_eq_ok_iff.mp h
  exact answered_of_fits (fits_of_lint hd hreport)

theorem exists_diagnostics_iff (hd : d ∈ builtin) :
    (∃ ds, d.diagnostics options t = .ok ds) ↔ d.Lexes t := by
  rw [diagnostics, exists_map_eq_ok_iff, exists_lint_iff hd]

/-- A pass with the built-in repairs comes to an end wherever the lexer does. -/
theorem exists_pass (hd : d ∈ builtin) (options : LintOptions) (level : Level) (h : d.Lexes t) :
    ∃ u, pass (d.diagnostics options) Registry.builtin level t = .ok u := by
  obtain ⟨ds, hds⟩ := (exists_diagnostics_iff hd).mpr h
  exact exists_pass_iff.mpr ⟨ds, hds, answered hd hds⟩

/-- The lexer comes to the end of the text and of every text that the first passes make of it. -/
def LexesThroughout (d : Dialect) (lint : Text → Except Fault (List Diagnostic)) (level : Level)
    (t : Text) : Prop :=
  ∀ n ≤ maxPasses, ∀ u, passes lint Registry.builtin level n t = .ok u → d.Lexes u

/-- Repairing with the diagnostics of a built-in dialect comes to an end exactly when the lexer
comes to the end of every text that is linted. -/
theorem exists_fix_iff (hd : d ∈ builtin) : (∃ o, d.fix t options level = .ok o) ↔
    d.LexesThroughout (d.diagnostics options) level t := by
  simp only [LexesThroughout, ← @exists_diagnostics_iff _ d options hd]
  exact exists_converge_iff fun _ _ h => answered hd h

end Dialect

/-! ## Configured linters -/

namespace Linter

variable (l : Linter)

theorem exists_adjust (x : Diagnostic) : ∃ s, l.adjust x = x.withSeverity s := by
  unfold adjust
  split
  · exact ⟨_, rfl⟩
  · exact ⟨x.severity, rfl⟩

/-- What a linter makes of the diagnostics of a dialect is repaired where they would be. -/
theorem answered (hd : d ∈ Dialect.builtin) {ds : List Diagnostic} (h : l.lintIn d t = .ok ds) :
    Answered Registry.builtin level t ds := by
  obtain ⟨found, hfound, rfl⟩ := map_eq_ok_iff.mp h
  obtain ⟨report, hreport, rfl⟩ := Dialect.diagnostics_eq_ok_iff.mp hfound
  refine answered_of_fits fun x hx => ?_
  obtain ⟨own, hown, rfl⟩ := List.mem_map.mp hx
  have hfits := Dialect.fits_of_lint hd hreport own (List.mem_filter.mp hown).1
  obtain ⟨s, hs⟩ := l.exists_adjust own
  rw [hs]
  exact hfits

theorem exists_lintIn_iff (hd : d ∈ Dialect.builtin) :
    (∃ ds, l.lintIn d t = .ok ds) ↔ d.Lexes t := by
  rw [lintIn, exists_map_eq_ok_iff, Dialect.exists_diagnostics_iff hd]

theorem exists_converge_lintIn_iff (hd : d ∈ Dialect.builtin) :
    (∃ o, converge (l.lintIn d) Registry.builtin t level = .ok o) ↔
      d.LexesThroughout (l.lintIn d) level t := by
  simp only [Dialect.LexesThroughout, ← l.exists_lintIn_iff hd]
  exact exists_converge_iff fun _ _ h => l.answered hd h

end Linter

end DiagramLint
