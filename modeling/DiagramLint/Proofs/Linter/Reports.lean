-- When a text can be linted. The lexers of flowcharts and of sequence diagrams
-- come to the end of every text; a pie chart has a report exactly when its
-- lexer does.
import DiagramLint.Dialect
import DiagramLint.Proofs.Attempts
import DiagramLint.Proofs.Flowchart.Tiles
import DiagramLint.Proofs.Grammar.Stages
import DiagramLint.Proofs.Sequence.Tiles

namespace DiagramLint

theorem Scan.result_of_finished {κ : Type} {scan : Scan κ} {l : Lexed κ} (h : scan = .finished l) :
    scan.result = .ok l := Scan.result_eq_ok_iff.mpr h

variable {t : Text} {options : LintOptions}

theorem Flowchart.lint_eq (t : Text) (options : LintOptions) :
    grammar.lint t options = .ok (grammar.report t options (tokenize t)) :=
  Grammar.lint_eq_ok_iff.mpr ⟨_, Scan.result_of_finished (scan_eq_finished t), rfl⟩

theorem Sequence.lint_eq (t : Text) (options : LintOptions) :
    grammar.lint t options = .ok (grammar.report t options (tokenize t)) :=
  Grammar.lint_eq_ok_iff.mpr ⟨_, Scan.result_of_finished (scan_eq_finished t), rfl⟩

theorem Pie.tokenize_eq_ok_iff {l : Lexed Kind} : tokenize t = .ok l ↔ scan t = .finished l :=
  Scan.result_eq_ok_iff

theorem Pie.lint_eq_ok_iff {report : Report} : grammar.lint t options = .ok report ↔
    ∃ l, scan t = .finished l ∧ report = grammar.report t options l := by
  simp only [Grammar.lint_eq_ok_iff, ← tokenize_eq_ok_iff]
  rfl

namespace Dialect

variable {d : Dialect}

/-- A dialect's lexer comes to the end of a text; only that of pie charts may not. -/
def Lexes (d : Dialect) (t : Text) : Prop := d.id = "pie" → ∃ l, Pie.scan t = .finished l

theorem lexes_flowchart (t : Text) : flowchart.Lexes t := fun hid => absurd hid (by decide)

theorem lexes_sequence (t : Text) : sequence.Lexes t := fun hid => absurd hid (by decide)

/-- A text has a report in a built-in dialect exactly when its lexer comes to the end of it. -/
theorem exists_lint_iff (hd : d ∈ builtin) :
    (∃ report, d.lint t options = .ok report) ↔ d.Lexes t := by
  simp only [builtin, List.mem_cons, List.not_mem_nil, or_false] at hd
  rcases hd with rfl | rfl | rfl
  · exact iff_of_true ⟨_, Flowchart.lint_eq t options⟩ (lexes_flowchart t)
  · constructor
    · rintro ⟨report, hreport⟩ -
      obtain ⟨l, hl, -⟩ := Pie.lint_eq_ok_iff.mp hreport
      exact ⟨l, hl⟩
    · intro h
      obtain ⟨l, hl⟩ := h rfl
      exact ⟨_, Pie.lint_eq_ok_iff.mpr ⟨l, hl, rfl⟩⟩
  · exact iff_of_true ⟨_, Sequence.lint_eq t options⟩ (lexes_sequence t)

/-- What holds of the diagnostics of every report of the three grammars holds in every built-in
dialect. -/
theorem forall_of_lint {p : Diagnostic → Prop} (hd : d ∈ builtin)
    (hflowchart : d = flowchart → ∀ x ∈ (Flowchart.grammar.report t options
      (Flowchart.tokenize t)).diagnostics, p x)
    (hpie : d = pie → ∀ l, Pie.scan t = .finished l →
      ∀ x ∈ (Pie.grammar.report t options l).diagnostics, p x)
    (hsequence : d = sequence → ∀ x ∈ (Sequence.grammar.report t options
      (Sequence.tokenize t)).diagnostics, p x)
    {report : Report} (h : d.lint t options = .ok report) : ∀ x ∈ report.diagnostics, p x := by
  simp only [builtin, List.mem_cons, List.not_mem_nil, or_false] at hd
  rcases hd with rfl | rfl | rfl
  · obtain rfl := Except.ok.inj ((Flowchart.lint_eq t options).symm.trans h)
    exact hflowchart rfl
  · obtain ⟨l, hl, rfl⟩ := Pie.lint_eq_ok_iff.mp h
    exact hpie rfl l hl
  · obtain rfl := Except.ok.inj ((Sequence.lint_eq t options).symm.trans h)
    exact hsequence rfl

theorem diagnostics_eq_ok_iff {ds : List Diagnostic} : d.diagnostics options t = .ok ds ↔
    ∃ report, d.lint t options = .ok report ∧ report.diagnostics = ds :=
  map_eq_ok_iff

theorem diagnostics_flowchart (t : Text) (options : LintOptions) :
    flowchart.diagnostics options t =
      .ok (Flowchart.grammar.report t options (Flowchart.tokenize t)).diagnostics :=
  diagnostics_eq_ok_iff.mpr ⟨_, Flowchart.lint_eq t options, rfl⟩

theorem diagnostics_sequence (t : Text) (options : LintOptions) :
    sequence.diagnostics options t =
      .ok (Sequence.grammar.report t options (Sequence.tokenize t)).diagnostics :=
  diagnostics_eq_ok_iff.mpr ⟨_, Sequence.lint_eq t options, rfl⟩

end Dialect

end DiagramLint
