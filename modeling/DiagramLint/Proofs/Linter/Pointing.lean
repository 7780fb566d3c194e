-- The law of what diagnostics point at: in every built-in dialect, what a
-- diagnostic spans is what its code and its message are about.
import DiagramLint.Proofs.Flowchart.Showing
import DiagramLint.Proofs.Pie.Showing
import DiagramLint.Proofs.Sequence.Showing

namespace DiagramLint

/-- A text that its lexer comes to the end of has a report, and each diagnostic of a built-in
dialect in it spans the characters it describes, whatever the line ends and the characters before
them. -/
theorem diagnostics_point_at_what_they_describe {dialect : Dialect}
    (hdialect : dialect ∈ Dialect.builtin) {t : Text}
    (hends : dialect.id = "pie" → ∃ l, Pie.scan t = .finished l) (options : LintOptions) :
    ∃ report, dialect.lint t options = .ok report ∧ ∀ d ∈ report.diagnostics, d.Shows t := by
  obtain ⟨report, hreport⟩ := (Dialect.exists_lint_iff hdialect).mpr hends
  refine ⟨report, hreport, Dialect.forall_of_lint hdialect ?_ ?_ ?_ hreport⟩
  · exact fun _ => (Flowchart.grammar_allShow t options).report
  · exact fun _ l hl => (Pie.grammar_allShow hl options).report
  · exact fun _ => (Sequence.grammar_allShow t options).report

/-- A pie chart with carriage returns, characters of more than one byte and a negative value. -/
def negativeSlice : Text := "pie\r\n\"Dögs\" : -3\r\n".toList

/-- What is reported of it. -/
def negativeSliceFinding : Diagnostic where
  line := 2
  column := 10
  message := "Slice 'Dögs' has a negative value"
  severity := .error
  code := some Code.pieValueNegative
  hint := some "Pie values must be positive"
  length := some 2

theorem negativeSlice_is_pointed_at :
    (∃ l, Pie.scan negativeSlice = .finished l) ∧
      ∃ report, Dialect.pie.lint negativeSlice {} = .ok report ∧
        negativeSliceFinding ∈ report.diagnostics ∧ negativeSliceFinding.Shows negativeSlice := by
  have hends := Pie.scan_finishes_of_all (t := negativeSlice) (by decide)
  have hpie : Dialect.pie ∈ Dialect.builtin := by simp [Dialect.builtin]
  obtain ⟨report, hreport, hshows⟩ :=
    diagnostics_point_at_what_they_describe hpie (fun _ => hends) {}
  have hfound : ∃ report, Dialect.pie.lint negativeSlice {} = .ok report ∧
      negativeSliceFinding ∈ report.diagnostics := by decide +kernel
  obtain ⟨own, hown, hd⟩ := hfound
  obtain rfl := Except.ok.inj (hown.symm.trans hreport)
  exact ⟨hends, own, hown, hd, hshows _ hd⟩

end DiagramLint
