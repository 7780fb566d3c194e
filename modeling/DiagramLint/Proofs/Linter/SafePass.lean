-- The law of a pass of safe repairs: what was read without an error still is,
-- unless a repair meets tokens that it was not made for.
import DiagramLint.Proofs.Flowchart.Mending
import DiagramLint.Proofs.Linter.Answering
import DiagramLint.Proofs.Pie.Mending
import DiagramLint.Proofs.Sequence.Mending

namespace DiagramLint

/-- The text of a dialect after one pass of safe repairs. -/
def Dialect.safePass (d : Dialect) (options : LintOptions) (t : Text) : Except Fault Text :=
  pass (d.diagnostics options) Registry.builtin .safe t

/-- A safe pass comes to an end where the lexer does, and it applies the edits that are selected of
a report. -/
theorem Dialect.exists_safePass {d : Dialect} (hd : d ∈ builtin) (options : LintOptions) {t : Text}
    (h : d.Lexes t) : ∃ report edits, d.lint t options = .ok report ∧
      selectEdits Registry.builtin t report.diagnostics .safe = .ok edits ∧
      d.safePass options t = .ok (t.splice edits) := by
  obtain ⟨u, hu⟩ := exists_pass hd options .safe h
  obtain ⟨edits, hedits, rfl⟩ := pass_eq_ok_iff.mp hu
  obtain ⟨ds, hds, hselect⟩ := passEdits_eq_ok_iff.mp hedits
  obtain ⟨report, hreport, rfl⟩ := diagnostics_eq_ok_iff.mp hds
  exact ⟨report, edits, hreport, hselect, hu⟩

/-- A safe pass over a pie chart that is read without an error leaves one that is, if no string
opens right behind a backslash; over a sequence diagram, if no wrong arrow comes right behind an
arrow; over a flowchart, if nothing but wrong links is repaired, no link before a wrong one on its
line could take a text along, and no link and no class stands right before it. -/
theorem a_safe_pass_keeps_texts_readable (t : Text) (options : LintOptions) :
    (∀ l, Pie.tokenize t = .ok l → l.errors = [] → Pie.StringsApart l.tokens →
      ∃ u, Dialect.pie.safePass options t = .ok u ∧
        ∃ l', Pie.tokenize u = .ok l' ∧ l'.errors = []) ∧
    ((Sequence.tokenize t).errors = [] → Sequence.ArrowsApart (Sequence.tokenize t).tokens →
      ∃ u, Dialect.sequence.safePass options t = .ok u ∧ (Sequence.tokenize u).errors = []) ∧
    ((Flowchart.tokenize t).errors = [] → Flowchart.LinksApart (Flowchart.tokenize t).tokens →
      (∀ report, Dialect.flowchart.lint t options = .ok report →
        Flowchart.RepairsLinksOnly .safe report.diagnostics) →
      ∃ u, Dialect.flowchart.safePass options t = .ok u ∧ (Flowchart.tokenize u).errors = []) := by
  refine ⟨?_, ?_, ?_⟩
  · intro l htokenize hc ha
    have hl := Pie.tokenize_eq_ok_iff.mp htokenize
    obtain ⟨report, edits, hreport, hselect, hpass⟩ :=
      @Dialect.exists_safePass .pie (by simp [Dialect.builtin]) options t fun _ => ⟨l, hl⟩
    obtain ⟨own, hown, rfl⟩ := Pie.lint_eq_ok_iff.mp hreport
    obtain rfl := Scan.finished.inj (hl.symm.trans hown)
    obtain ⟨l', hl', hc'⟩ := Pie.errors_safe_pass hl hc ha hselect
    exact ⟨_, hpass, l', Pie.tokenize_eq_ok_iff.mpr hl', hc'⟩
  · intro hc ha
    obtain ⟨report, edits, hreport, hselect, hpass⟩ :=
      @Dialect.exists_safePass .sequence (by simp [Dialect.builtin]) options t
        (Dialect.lexes_sequence t)
    obtain rfl := Except.ok.inj ((Sequence.lint_eq t options).symm.trans hreport)
    exact ⟨_, hpass, Sequence.errors_safe_pass hc ha hselect⟩
  · intro hc ha honly
    obtain ⟨report, edits, hreport, hselect, hpass⟩ :=
      @Dialect.exists_safePass .flowchart (by simp [Dialect.builtin]) options t
        (Dialect.lexes_flowchart t)
    have hrepairs := honly report hreport
    obtain rfl := Except.ok.inj ((Flowchart.lint_eq t options).symm.trans hreport)
    exact ⟨_, hpass, Flowchart.errors_safe_pass hc ha hrepairs hselect⟩

/-- A pie chart with an escaped quotation mark in a label. -/
def escapedLabel : Text := "pie\n\"a\\\"b\" : 1".toList

/-- A sequence diagram with an arrow that messages do not have. -/
def wrongArrow : Text := "sequenceDiagram\nA=>B: hi".toList

/-- A flowchart with a link that flowcharts do not have, behind one that they have. -/
def wrongLink : Text := "flowchart TD\nA --> B => C".toList

theorem a_safe_pass_keeps_wrongArrow_readable :
    (Dialect.pie.safePass {} escapedLabel = .ok "pie\n\"a&quot;b\" : 1".toList ∧
        ∃ u, Dialect.pie.safePass {} escapedLabel = .ok u ∧
          ∃ l, Pie.tokenize u = .ok l ∧ l.errors = []) ∧
      (Dialect.sequence.safePass {} wrongArrow = .ok "sequenceDiagram\nA->>B: hi".toList ∧
        ∃ u, Dialect.sequence.safePass {} wrongArrow = .ok u ∧
          (Sequence.tokenize u).errors = []) ∧
      Dialect.flowchart.safePass {} wrongLink = .ok "flowchart TD\nA --> B --> C".toList ∧
        ∃ u, Dialect.flowchart.safePass {} wrongLink = .ok u ∧
          (Flowchart.tokenize u).errors = [] := by
  obtain ⟨l, hl, hc, ha⟩ : ∃ l, Pie.tokenize escapedLabel = .ok l ∧
      (l.errors = [] ∧ Pie.StringsApart l.tokens) := by decide +kernel
  obtain ⟨report, hreport, honly⟩ : ∃ report, Dialect.flowchart.lint wrongLink {} = .ok report ∧
      Flowchart.RepairsLinksOnly .safe report.diagnostics := by decide +kernel
  refine ⟨⟨by decide +kernel, (a_safe_pass_keeps_texts_readable escapedLabel {}).1 l hl hc ha⟩,
    ⟨by decide +kernel, ?_⟩, by decide +kernel, ?_⟩
  · exact (a_safe_pass_keeps_texts_readable wrongArrow {}).2.1 (by decide +kernel)
      (by decide +kernel)
  · refine (a_safe_pass_keeps_texts_readable wrongLink {}).2.2 (by decide +kernel)
      (by decide +kernel) fun own hown => ?_
    rw [← Except.ok.inj (hreport.symm.trans hown)]
    exact honly

/-- A flowchart with a label in the shape that `>` opens. -/
def flagLabel : Text := "flowchart TD\nA>\"a\" b]".toList

/-- The label in such a shape is not seen by the repair of its quotation marks, which turns one of
them and leaves a label that does not end. -/
theorem a_safe_pass_breaks_a_flag_label :
    ¬ ∀ (t u : Text) (options : LintOptions), (Flowchart.tokenize t).errors = [] →
      Dialect.flowchart.safePass options t = .ok u → (Flowchart.tokenize u).errors = [] := by
  intro h
  obtain ⟨u, hu, hbroken⟩ : ∃ u, Dialect.flowchart.safePass {} flagLabel = .ok u ∧
      (Flowchart.tokenize u).errors ≠ [] := by decide +kernel
  exact hbroken (h flagLabel u {} (by decide +kernel) hu)

end DiagramLint
