-- The law of repairing: a repaired text is still in the dialect it was
-- repaired in, so what repairing reports is what linting its result anew
-- would report. The dialect is looked for only once, in the text as it was;
-- that this is enough rests on the heading, which no repair touches.
import DiagramLint.Proofs.Flowchart.Language
import DiagramLint.Proofs.Linter.Answering
import DiagramLint.Proofs.Pie.Language
import DiagramLint.Proofs.Sequence.Language

namespace DiagramLint

open Heading

variable {g : Heading} {t : Text} {d : Dialect}

/-! ## The built-in dialects -/

namespace Dialect

/-- Only the header word decides on the dialect. -/
theorem detect?_congr {t' : Text} (h : headerWord? t = headerWord? t') (dialects : List Dialect) :
    detect? dialects t = detect? dialects t' := by
  unfold detect? detects
  rw [h]

theorem builtin_headers_isHeaderWord :
    ∀ d ∈ builtin, ∀ w ∈ d.headers, IsHeaderWord w.toList := by
  have hne : ∀ d ∈ builtin, ∀ w ∈ d.headers, w.toList ≠ [] := by decide
  have hident : ∀ d ∈ builtin, ∀ w ∈ d.headers, w.toList.all isIdentChar = true := by decide
  exact fun d hd w hw => ⟨hne d hd w hw, List.all_eq_true.mp (hident d hd w hw)⟩

theorem builtin_headers_open_no_block :
    ∀ d ∈ builtin, ∀ w ∈ d.headers, ∀ opener ∈ endBlockOpeners, opener.toList ≠ w.toList := by
  decide

/-- A text in a built-in dialect opens with a heading of that dialect. -/
theorem exists_heading_of_detects (hd : d ∈ builtin) (h : d.detects t = true) :
    ∃ g : Heading, g.Opens t ∧ g.HeadsDiagram ∧ String.ofList g.word ∈ d.headers := by
  obtain ⟨w, hword, hmem⟩ := (Option.any_eq_true _ _).mp h
  have hw : w ∈ d.headers := List.contains_iff_mem.mp hmem
  obtain ⟨g, hg, hopens⟩ :=
    DiagramLint.exists_heading hword (builtin_headers_isHeaderWord d hd w hw)
  refine ⟨g, hopens, ?_, ?_⟩
  · intro opener ho
    rw [hg]
    exact builtin_headers_open_no_block d hd w hw opener ho
  · rw [hg, String.ofList_toList]
    exact hw

theorem exists_heading (h : detect? builtin t = some d) :
    ∃ g : Heading, g.Opens t ∧ g.HeadsDiagram ∧ String.ofList g.word ∈ d.headers :=
  exists_heading_of_detects (List.mem_of_find?_eq_some h)
    (List.find?_some (p := fun d : Dialect => d.detects t) h)

/-- A built-in dialect reports behind a heading of its own. -/
theorem guards (hd : d ∈ builtin) (hw : String.ofList g.word ∈ d.headers) (options : LintOptions) :
    g.Guards (d.diagnostics options) := by
  intro t hg ds hds
  obtain ⟨report, hreport, rfl⟩ := diagnostics_eq_ok_iff.mp hds
  refine forall_of_lint hd ?_ ?_ ?_ hreport
  · rintro rfl
    exact (Flowchart.oversees hg hw options).report hg
  · rintro rfl l hl
    have hbehind := (Pie.oversees hg hw options).report hg
    rwa [hl] at hbehind
  · rintro rfl
    exact (Sequence.oversees hg hw options).report hg

/-- A repaired text is in the dialect it was in before, whatever is made of the diagnostics of the
dialect as long as they stay behind its headings. -/
theorem detect?_converge (h : detect? builtin t = some d)
    {lint : Text → Except Fault (List Diagnostic)}
    (hl : ∀ g : Heading, String.ofList g.word ∈ d.headers → g.Guards lint) {level : Level}
    {o : Outcome} (ho : converge lint Registry.builtin t level = .ok o) :
    detect? builtin o.fixed = some d := by
  obtain ⟨g, hopens, hheads, hword⟩ := exists_heading h
  have hfixed := hopens.converge hheads (hl g hword) ho
  rw [detect?_congr (hfixed.headerWord.trans hopens.headerWord.symm), h]

end Dialect

/-! ## A configured linter -/

namespace Linter

/-- A configured severity leaves a diagnostic where it is. -/
theorem behind_adjust (l : Linter) {found : Diagnostic} (h : g.Behind t found) :
    g.Behind t (l.adjust found) := by
  unfold adjust
  split
  · exact ⟨h.point, h.line, h.no_brace⟩
  · exact h

/-- What a linter reports in a built-in dialect stands behind the headings of the dialect. -/
theorem guards_lintIn (l : Linter) (hd : d ∈ Dialect.builtin)
    (hw : String.ofList g.word ∈ d.headers) : g.Guards (l.lintIn d) := by
  intro t hg ds hds
  obtain ⟨own, hown, rfl⟩ := map_eq_ok_iff.mp hds
  intro found hm
  obtain ⟨original, horiginal, rfl⟩ := List.mem_map.mp hm
  exact l.behind_adjust
    (Dialect.guards hd hw _ t hg own hown original (List.mem_filter.mp horiginal).1)

end Linter

/-! ## The law -/

/-- Repairing ends in the dialect it began in, and reports of its result what linting that result
reports, with the built-in dialects as they are and under any configuration. It comes to an end
exactly when the lexer of the dialect does, on the text and on every text that the first passes
make of it. -/
theorem repairing_reports_what_a_fresh_lint_reports (t : Text) :
    (∀ (options : LintOptions) (level : Level),
      ((∃ o, fixText t options level = .ok o) ↔
        ∀ d, Dialect.detect? Dialect.builtin t = some d →
          d.LexesThroughout (d.diagnostics options) level t) ∧
      ∀ o, fixText t options level = .ok o →
        Dialect.detect? Dialect.builtin o.fixed = Dialect.detect? Dialect.builtin t ∧
          lintText o.fixed options = .ok o.errors) ∧
    ∀ (config : Config) (path : String), let l : Linter := { config }
      ((∃ o, l.fixText t = .ok o) ↔ ∀ d, l.detect? t = some d →
        d.LexesThroughout (l.lintIn d) config.level t) ∧
      ∀ o, l.fixText t = .ok o → l.detect? o.fixed = l.detect? t ∧
        ∃ report, l.lintText o.fixed path = .ok report ∧ report.diagnostics = o.errors := by
  cases h : Dialect.detect? Dialect.builtin t with
  | none =>
    refine ⟨fun options level => ?_, fun config path => ?_⟩
    · simp [fixText, lintText, h]
    · simp [Linter.fixText, Linter.lintText, Linter.detect?, h]
  | some d =>
    have hd : d ∈ Dialect.builtin := List.mem_of_find?_eq_some h
    refine ⟨fun options level => ?_, fun config path => ?_⟩
    · have hfix : fixText t options level = d.fix t options level := by
        simp only [fixText, h]
      rw [hfix]
      refine ⟨?_, fun o ho => ?_⟩
      · rw [Dialect.exists_fix_iff hd]
        simp
      · have hsame := Dialect.detect?_converge h (fun g hw => Dialect.guards hd hw options) ho
        rw [lintText, hsame]
        exact ⟨rfl, (converge_runsTo ho).errors_eq⟩
    · intro l
      have hdetect : l.detect? t = some d := h
      have hfix : l.fixText t = converge (l.lintIn d) Registry.builtin t config.level := by
        simp only [Linter.fixText, hdetect]
        rfl
      rw [hfix, hdetect]
      refine ⟨?_, fun o ho => ?_⟩
      · rw [l.exists_converge_lintIn_iff hd]
        simp
      · have hsame : l.detect? o.fixed = some d :=
          Dialect.detect?_converge h (fun g hw => l.guards_lintIn hd hw) ho
        refine ⟨hsame, ?_⟩
        simp only [Linter.lintText, hsame, (converge_runsTo ho).errors_eq]
        exact ⟨_, rfl, rfl⟩

/-- A pie chart whose lexer comes to the end. A quotation mark behind a backslash keeps it from a
no-break space, which is read as part of a string. -/
def spacedLabels : Text := "pie\nx\\\"a\" y\\\"b\u00a0\\\"c\" : 1".toList

/-- A pass encodes the quotation marks, and the lexer never gets past the no-break space. -/
theorem spacedLabels_are_never_repaired :
    (∃ l, Pie.tokenize spacedLabels = .ok l ∧ l.errors = []) ∧
      pass (Dialect.pie.diagnostics {}) Registry.builtin .safe spacedLabels =
        .ok "pie\nx\\\"a\" y&quot;b\u00a0&quot;c\" : 1".toList ∧
      ¬ ∃ o, fixText spacedLabels {} .safe = .ok o := by
  refine ⟨by decide +kernel, by decide +kernel, ?_⟩
  have hendless : fixText spacedLabels {} .safe = .error .endless := by decide +kernel
  rw [hendless]
  exact fun ⟨_, h⟩ => nomatch h

end DiagramLint
