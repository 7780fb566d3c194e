-- The law of compact output: a report is as many lines as there are
-- diagnostics, in the order of the files. A line ends where its diagnostic
-- does, because neither a message nor a code has a line feed of its own; only
-- a path could bring one along.
import DiagramLint.Output.Formatter
import DiagramLint.Proofs.Linter.Wording

namespace DiagramLint

open Text

/-! ## Lines -/

/-- Lines without line feeds, each ended by one, are the pieces before the empty last one. -/
theorem splitWhere_lines {lines : List Text} (h : ∀ line ∈ lines, '\n' ∉ line) :
    splitWhere (· == '\n') (lines.flatMap fun line => line ++ ['\n']) = lines ++ [[]] := by
  induction lines with
  | nil => rfl
  | cons line rest ih =>
    obtain ⟨hline, hrest⟩ := List.forall_mem_cons.mp h
    rw [List.flatMap_cons, List.append_assoc, List.singleton_append,
      splitWhere_append _ (by decide), splitWhere_of_not_mem hline, ih hrest]
    rfl

theorem severity_oneLine (s : Severity) : OneLine s.name := by
  cases s with
  | error => decide
  | warning => decide

theorem newline_not_mem_compactLine (showCode : Bool) {path : String} (hp : OneLine path)
    {d : Diagnostic} (hd : d.Inline) : '\n' ∉ compactLine showCode path d := by
  have hseverity := severity_oneLine d.severity
  change OneLine (_ ++ _)
  cases hcode : d.code with
  | none => simp +decide [hp, hseverity, hd.message]
  | some code =>
    have hown := hd.code code hcode
    by_cases hshow : showCode = true
    · simp +decide [hshow, hp, hseverity, hown, hd.message]
    · simp +decide [hshow, hp, hseverity, hd.message]

/-! ## Files in their order -/

namespace LintResult

theorem files_foldl_add (reports : List FileReport) (r : LintResult) :
    (reports.foldl add r).files = r.files ++ reports := by
  induction reports generalizing r with
  | nil => simp
  | cons report rest ih =>
    rw [List.foldl_cons, ih]
    simp [add]

theorem diagnostics_ofReports (reports : List FileReport) :
    (ofReports reports).diagnostics =
      reports.flatMap fun file => file.diagnostics.map fun d => (file.path, d) := by
  unfold diagnostics ofReports
  rw [files_foldl_add]
  rfl

end LintResult

namespace Linter

variable {l : Linter} {files : List (String × Text)}

/-- A built-in dialect's lexer comes to the end of the text, if the text is written in one. -/
def Lexes (l : Linter) (t : Text) : Prop := ∀ dialect, l.detect? t = some dialect → dialect.Lexes t

theorem exists_lintText_iff (hl : l.dialects = Dialect.builtin) {t : Text} {path : String} :
    (∃ report, l.lintText t path = .ok report) ↔ l.Lexes t := by
  unfold lintText Lexes
  cases hdetected : l.detect? t with
  | none => simp
  | some dialect =>
    rw [detect?, hl] at hdetected
    have hbuiltin : dialect ∈ Dialect.builtin := List.mem_of_find?_eq_some hdetected
    simp only [exists_map_eq_ok_iff, lintIn, Dialect.diagnostics, Dialect.exists_lint_iff hbuiltin,
      Option.some.injEq, forall_eq']

theorem path_eq_of_lintText {t : Text} {path : String} {report : FileReport}
    (h : l.lintText t path = .ok report) : report.path = path := by
  unfold lintText at h
  split at h
  · obtain ⟨found, -, rfl⟩ := map_eq_ok_iff.mp h
    rfl
  · cases h
    rfl

/-- What linting texts under their paths reports. -/
def lintTexts (l : Linter) (files : List (String × Text)) : Except Fault LintResult :=
  (files.mapM fun file => l.lintText file.2 file.1).map .ofReports

/-- Files are linted as the texts that a tree holds for them. -/
theorem lint_eq_lintTexts {tree : FileTree} (h : ∀ file ∈ files, tree.read file.1 = .ok file.2) :
    l.lint tree (files.map (·.1)) = l.lintTexts files := by
  have hmap : (files.map (·.1)).mapM (l.lintFile tree) =
      files.mapM fun file => l.lintText file.2 file.1 := by
    induction files with
    | nil => rfl
    | cons file rest ih =>
      obtain ⟨hfile, hrest⟩ := List.forall_mem_cons.mp h
      rw [List.map_cons, List.mapM_cons, List.mapM_cons, ih hrest, lintFile, hfile]
  rw [lint, lintTexts, hmap]

theorem exists_lintTexts_iff (hl : l.dialects = Dialect.builtin) :
    (∃ result, l.lintTexts files = .ok result) ↔ ∀ file ∈ files, l.Lexes file.2 := by
  simp only [lintTexts, exists_map_eq_ok_iff, exists_mapM_eq_ok_iff, exists_lintText_iff hl]

/-- The diagnostics of a text with its path. -/
def located (l : Linter) (file : String × Text) : Except Fault (List (String × Diagnostic)) :=
  (l.lintText file.2 file.1).map fun report => report.diagnostics.map fun d => (file.1, d)

theorem diagnostics_lintTexts {result : LintResult} (h : l.lintTexts files = .ok result) :
    ∃ found, files.mapM l.located = .ok found ∧ result.diagnostics = found.flatten := by
  obtain ⟨reports, hreports, rfl⟩ := map_eq_ok_iff.mp h
  refine ⟨reports.map fun report => report.diagnostics.map fun d => (report.path, d), ?_, ?_⟩
  · rw [mapM_eq_ok_iff] at hreports ⊢
    rw [List.forall₂_map_right_iff]
    refine hreports.imp fun file report hreport => ?_
    rw [located, map_eq_ok_iff]
    exact ⟨report, hreport, by rw [path_eq_of_lintText hreport]⟩
  · rw [LintResult.diagnostics_ofReports, List.flatMap_def]

end Linter

/-! ## The law -/

/-- Compact output is a line for each diagnostic. Under any configuration and whatever text they
are given, the built-in dialects say what they report on one line. Some texts have a report when
their lexers come to the end of each of them; where no path has a line feed, that report is the
lines of the diagnostics, file by file, each ended by a line feed. -/
theorem a_compact_report_has_a_line_for_each_diagnostic (config : Config) (showCode : Bool) :
    let l : Linter := { config }
    (∀ t path report, l.lintText t path = .ok report → ∀ d ∈ report.diagnostics,
        OneLine d.message) ∧
      ∀ files : List (String × Text), (∀ file ∈ files, OneLine file.1) →
        ((∃ result, l.lintTexts files = .ok result) ↔ ∀ file ∈ files, l.Lexes file.2) ∧
        ∀ result, l.lintTexts files = .ok result →
          (∃ found, files.mapM l.located = .ok found ∧ result.diagnostics = found.flatten) ∧
          ((Formatter.compact showCode).report result).splitWhere (· == '\n') =
            (result.diagnostics.map fun (path, d) =>
              (Formatter.compact showCode).diagnostic path d) ++ [[]] := by
  intro l
  have hinline : ∀ {t path report}, l.lintText t path = .ok report →
      ∀ d ∈ report.diagnostics, d.Inline := fun h => Linter.lintText_inline rfl h
  refine ⟨fun t path report h d hd => (hinline h d hd).message, fun files hpaths => ?_⟩
  refine ⟨Linter.exists_lintTexts_iff rfl, fun result hresult => ?_⟩
  refine ⟨Linter.diagnostics_lintTexts hresult, ?_⟩
  have hlines : ∀ line ∈ result.diagnostics.map (fun (path, d) => compactLine showCode path d),
      '\n' ∉ line := by
    obtain ⟨found, hfound, hdiagnostics⟩ := Linter.diagnostics_lintTexts hresult
    rw [hdiagnostics]
    intro line hline
    obtain ⟨⟨path, d⟩, hmem, rfl⟩ := List.mem_map.mp hline
    obtain ⟨own, hown, hmem⟩ := List.mem_flatten.mp hmem
    obtain ⟨file, hfile, hlocated⟩ := exists_of_mem_mapM hfound hown
    obtain ⟨report, hreport, rfl⟩ := map_eq_ok_iff.mp hlocated
    obtain ⟨d', hd, heq⟩ := List.mem_map.mp hmem
    cases heq
    exact newline_not_mem_compactLine showCode (hpaths _ hfile) (hinline hreport d hd)
  have hsplit := splitWhere_lines hlines
  rw [List.flatMap_map] at hsplit
  exact hsplit

/-- A chart with an arrow, a bracket and a box gone wrong, a text in no dialect, and a pie chart
with one label twice. -/
def faultyFiles : List (String × Text) :=
  [("a.mmd", "graph TD\nA --> B)\nA[x -> y".toList), ("b.mmd", "hello\nworld".toList),
    ("c.mmd", "pie\nDogs : 0\n\"Dogs\" : 1".toList)]

theorem faultyFiles_are_reported_on_seven_lines :
    (∀ file ∈ faultyFiles, OneLine file.1) ∧
      ∃ result, ({} : Linter).lintTexts faultyFiles = .ok result ∧
        result.diagnostics.length = 7 ∧
        ((Formatter.compact true).report result).splitWhere (· == '\n') =
          (result.diagnostics.map fun (path, d) => (Formatter.compact true).diagnostic path d) ++
            [[]] := by
  have hpaths : ∀ file ∈ faultyFiles, OneLine file.1 := by decide
  obtain ⟨result, hresult, hlength⟩ : ∃ result, ({} : Linter).lintTexts faultyFiles = .ok result ∧
      result.diagnostics.length = 7 := by decide +kernel
  obtain ⟨-, hreport⟩ :=
    (a_compact_report_has_a_line_for_each_diagnostic {} true).2 faultyFiles hpaths
  exact ⟨hpaths, result, hresult, hlength, (hreport result hresult).2⟩

end DiagramLint
