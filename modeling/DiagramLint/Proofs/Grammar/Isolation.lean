-- The stages of linting keep to themselves. A report is made by rules, one
-- for each way a stage can end; what a failed check or a failed analysis
-- leaves behind is all that the other stages, and the report, see of it.
import Mathlib.Data.List.Forall2
import DiagramLint.Proofs.Grammar.Stages
import DiagramLint.Proofs.Text.Lines

namespace DiagramLint

/-! ## Diagnostics moved into a text -/

/-- A diagnostic as it is reported of a text: the same, but at the nearest place in the text. -/
structure Diagnostic.Placed (t : Text) (found reported : Diagnostic) : Prop where
  same : reported = { found with line := reported.line, column := reported.column }
  place : reported.place = t.clamp found.place
  line : 1 ≤ reported.line ∧ reported.line ≤ t.lineCount
  column : 1 ≤ reported.column ∧ reported.column ≤ (t.line reported.line).width + 1

theorem Text.clamp_within (t : Text) (p : Position) :
    (1 ≤ (t.clamp p).line ∧ (t.clamp p).line ≤ t.lineCount) ∧
      1 ≤ (t.clamp p).column ∧ (t.clamp p).column ≤ (t.line (t.clamp p).line).width + 1 := by
  refine ⟨t.clampLine_bounds p.line, ?_⟩
  simp only [clamp]
  omega

theorem Diagnostic.placed_iff {t : Text} {found reported : Diagnostic} :
    found.Placed t reported ↔ found.clampTo t = reported := by
  constructor
  · rintro ⟨hsame, hplace, -, -⟩
    rw [hsame, clampTo, ← hplace]
    rfl
  · rintro rfl
    exact ⟨rfl, rfl, (t.clamp_within found.place).1, (t.clamp_within found.place).2⟩

theorem forall₂_placed_iff {t : Text} {found reported : List Diagnostic} :
    List.Forall₂ (Diagnostic.Placed t) found reported ↔ found.map (·.clampTo t) = reported := by
  have hplaced : Diagnostic.Placed t = fun found reported => found.clampTo t = reported := by
    funext found reported
    exact propext Diagnostic.placed_iff
  rw [hplaced, ← List.forall₂_map_left_iff (R := Eq), List.forall₂_eq_eq_eq]

/-! ## The rules of the stages -/

/-- What a check comes to: its findings, or none and a note that it failed. -/
inductive Checked (stage : Stage) :
    Except String (List Diagnostic) → List Diagnostic → List HookFailure → Prop where
  | passed (found : List Diagnostic) : Checked stage (.ok found) found []
  | failed (reason : String) :
    Checked stage (.error reason) [] [⟨stage, "hook failed: " ++ reason⟩]

theorem checked_iff {stage : Stage} {result : Except String (List Diagnostic)}
    {found : List Diagnostic} {notes : List HookFailure} :
    Checked stage result found notes ↔
      hookDiagnostics result = found ∧ hookFailure stage result = notes := by
  constructor
  · intro h
    cases h <;> exact ⟨rfl, rfl⟩
  · rintro ⟨rfl, rfl⟩
    cases result with
    | ok found => exact .passed found
    | error reason => exact .failed reason

namespace Grammar

variable {κ τ ε : Type}

/-- What parsing comes to: a lexical error keeps the parser from running. -/
inductive Parses (g : Grammar κ τ ε) (lexed : Lexed κ) : Option τ → List ε → Prop where
  | parsed (h : lexed.errors = []) :
    g.Parses lexed (g.parse lexed.tokens).tree (g.parse lexed.tokens).errors
  | barred (h : lexed.errors ≠ []) : g.Parses lexed none []

/-- What the analysis comes to: nothing without a tree, and one finding when it fails. -/
inductive Analyzes (g : Grammar κ τ ε) (tokens : List (Token κ)) (options : LintOptions) :
    Option τ → List Diagnostic → Prop where
  | absent : g.Analyzes tokens options none []
  | passed {tree : τ} {found : List Diagnostic} (h : g.analyze tree tokens options = .ok found) :
    g.Analyzes tokens options (some tree) found
  | failed {tree : τ} {reason : String} (h : g.analyze tree tokens options = .error reason) :
    g.Analyzes tokens options (some tree)
      [{ line := 1, column := 1, message := "Semantic analysis failed: " ++ reason,
         severity := .error, code := some "SEMANTIC_ERROR" }]

/-- The findings of all stages on a text and its tokens, one stage after the other, and the notes
on failed checks. The last check sees the findings of the stages before it. -/
inductive Finds (g : Grammar κ τ ε) (t : Text) (options : LintOptions) (lexed : Lexed κ) :
    List Diagnostic → List HookFailure → Prop where
  | stages {early analysis late : List Diagnostic} {earlyNotes lateNotes : List HookFailure}
    {tree : Option τ} {errors : List ε}
    (hearly : Checked .postLex (g.postLex t lexed.tokens) early earlyNotes)
    (hparse : g.Parses lexed tree errors)
    (hanalysis : g.Analyzes lexed.tokens options tree analysis)
    (hlate : Checked .postParse
      (g.postParse t lexed.tokens tree
        (lexed.errors.map LexError.diagnostic ++ early ++ errors.map (g.explain · t)
          ++ analysis)) late lateNotes) :
    g.Finds t options lexed
      (lexed.errors.map LexError.diagnostic ++ early ++ errors.map (g.explain · t)
        ++ analysis ++ late)
      (earlyNotes ++ lateNotes)

/-! ## The rules make the report -/

theorem parses_iff {g : Grammar κ τ ε} {lexed : Lexed κ} {tree : Option τ} {errors : List ε} :
    g.Parses lexed tree errors ↔ g.parseOf lexed = ⟨tree, errors⟩ := by
  unfold parseOf
  constructor
  · intro h
    cases h with
    | parsed hclean => simp [hclean]
    | barred herrors => simp [herrors]
  · intro h
    split at h
    · rename_i hclean
      have hparsed := Parses.parsed (g := g) (List.isEmpty_iff.mp hclean)
      rwa [h] at hparsed
    · rename_i herrors
      cases h
      exact .barred (by simpa using herrors)

theorem analyzes_iff {g : Grammar κ τ ε} {tokens : List (Token κ)} {options : LintOptions}
    {tree : Option τ} {found : List Diagnostic} :
    g.Analyzes tokens options tree found ↔ g.analysisOf tree tokens options = found := by
  unfold analysisOf
  constructor
  · intro h
    cases h with
    | absent => rfl
    | passed h => simp only [h]
    | failed h => simp only [h]; rfl
  · intro h
    cases tree with
    | none =>
      subst h
      exact .absent
    | some tree =>
      simp only at h
      split at h
      · rename_i diagnostics hok
        subst h
        exact .passed hok
      · rename_i reason herror
        subst h
        exact .failed herror

theorem finds_iff {g : Grammar κ τ ε} {t : Text} {options : LintOptions} {lexed : Lexed κ}
    {found : List Diagnostic} {notes : List HookFailure} :
    g.Finds t options lexed found notes ↔
      g.priorTo t options lexed ++ hookDiagnostics (g.postParse t lexed.tokens
          (g.parseOf lexed).tree (g.priorTo t options lexed)) = found ∧
        (g.report t options lexed).hookFailures = notes := by
  constructor
  · rintro ⟨hearly, hparse, hanalysis, hlate⟩
    obtain ⟨rfl, rfl⟩ := checked_iff.mp hearly
    rw [analyzes_iff] at hanalysis
    obtain ⟨rfl, rfl⟩ := checked_iff.mp hlate
    simp only [report, priorTo, parses_iff.mp hparse, hanalysis, and_self]
  · rintro ⟨rfl, rfl⟩
    exact .stages (checked_iff.mpr ⟨rfl, rfl⟩) (parses_iff.mpr rfl) (analyzes_iff.mpr rfl)
      (checked_iff.mpr ⟨rfl, rfl⟩)

/-- A report is the one made of a text and its tokens exactly when its diagnostics are the findings
of the stages, moved into the text, and it has the notes on the checks that failed. -/
theorem report_eq_iff {g : Grammar κ τ ε} {t : Text} {options : LintOptions} {lexed : Lexed κ}
    {report : Report} :
    g.report t options lexed = report ↔
      ∃ found, g.Finds t options lexed found report.hookFailures ∧
        List.Forall₂ (Diagnostic.Placed t) found report.diagnostics := by
  constructor
  · rintro rfl
    exact ⟨_, finds_iff.mpr ⟨rfl, rfl⟩, forall₂_placed_iff.mpr rfl⟩
  · rintro ⟨found, hfinds, hplaced⟩
    obtain ⟨rfl, hnotes⟩ := finds_iff.mp hfinds
    have hreported := forall₂_placed_iff.mp hplaced
    obtain ⟨diagnostics, notes⟩ := report
    exact Report.mk.injEq .. |>.mpr ⟨hreported, hnotes⟩

/-! ## Failures -/

section

variable {g : Grammar κ τ ε} {t : Text} {options : LintOptions} {lexed : Lexed κ} {reason : String}

/-- A check of the tokens that fails leaves a note behind, and else what a silent one would. -/
theorem report_of_failed_postLex (h : g.postLex t lexed.tokens = .error reason)
    {silent : Text → List (Token κ) → Except String (List Diagnostic)}
    (hs : silent t lexed.tokens = .ok []) :
    let other := { g with postLex := silent }.report t options lexed
    g.report t options lexed =
      ⟨other.diagnostics, ⟨.postLex, "hook failed: " ++ reason⟩ :: other.hookFailures⟩ := by
  simp only [report, priorTo, h, hs]
  rfl

/-- So does a check of the tree, behind the note on the tokens. -/
theorem report_of_failed_postParse
    (h : g.postParse t lexed.tokens (g.parseOf lexed).tree (g.priorTo t options lexed) =
      .error reason)
    {silent : Text → List (Token κ) → Option τ → List Diagnostic → Except String (List Diagnostic)}
    (hs : silent t lexed.tokens (g.parseOf lexed).tree (g.priorTo t options lexed) = .ok []) :
    let other := { g with postParse := silent }.report t options lexed
    g.report t options lexed =
      ⟨other.diagnostics, other.hookFailures ++ [⟨.postParse, "hook failed: " ++ reason⟩]⟩ := by
  have hprior : { g with postParse := silent }.priorTo t options lexed =
      g.priorTo t options lexed := rfl
  have htree : { g with postParse := silent }.parseOf lexed = g.parseOf lexed := rfl
  simp only [report, hprior, htree, h, hs, hookDiagnostics, hookFailure, List.append_nil]

/-- An analysis that fails is one that reports its failure. -/
theorem report_of_failed_analysis {tree : τ} (ht : (g.parseOf lexed).tree = some tree)
    (h : g.analyze tree lexed.tokens options = .error reason)
    {analyze : τ → List (Token κ) → LintOptions → Except String (List Diagnostic)}
    (ha : analyze tree lexed.tokens options = .ok [analysisFailed reason]) :
    g.report t options lexed = { g with analyze := analyze }.report t options lexed := by
  have hparse : { g with analyze := analyze }.parseOf lexed = g.parseOf lexed := rfl
  have hprior : { g with analyze := analyze }.priorTo t options lexed =
      g.priorTo t options lexed := by
    simp only [priorTo, analysisOf, hparse, ht, h, ha]
  simp only [report, hprior, hparse]

/-- A text with tokens has a report. -/
theorem lint_of_tokenize (h : g.tokenize t = .ok lexed) :
    g.lint t options = .ok (g.report t options lexed) :=
  lint_eq_ok_iff.mpr ⟨lexed, h, rfl⟩

end

/-- Linting follows the rules of its stages, and the failure of one does not reach the others: a
text that has tokens has a report. A check that fails gives what it would have given with nothing to
report, and one note, in the order of the stages; an analysis that fails gives what it would have
given with its failure to report. Without tokens there is no report. -/
theorem a_failing_stage_is_kept_to_itself (g : Grammar κ τ ε) (t : Text) (options : LintOptions) :
    (∀ fault, g.tokenize t = .error fault → g.lint t options = .error fault) ∧
    ∀ lexed, g.tokenize t = .ok lexed →
      let tree := (g.parseOf lexed).tree
      let prior := g.priorTo t options lexed
      ∃ report, g.lint t options = .ok report ∧
      (∀ r, report = r ↔ ∃ found, g.Finds t options lexed found r.hookFailures ∧
        List.Forall₂ (Diagnostic.Placed t) found r.diagnostics) ∧
      (∀ reason silent, g.postLex t lexed.tokens = .error reason →
        silent t lexed.tokens = .ok [] →
        ∃ other, { g with postLex := silent }.lint t options = .ok other ∧
          report =
            ⟨other.diagnostics, ⟨.postLex, "hook failed: " ++ reason⟩ :: other.hookFailures⟩) ∧
      (∀ reason silent, g.postParse t lexed.tokens tree prior = .error reason →
        silent t lexed.tokens tree prior = .ok [] →
        ∃ other, { g with postParse := silent }.lint t options = .ok other ∧
          report =
            ⟨other.diagnostics,
              other.hookFailures ++ [⟨.postParse, "hook failed: " ++ reason⟩]⟩) ∧
      ∀ found reason analyze, tree = some found →
        g.analyze found lexed.tokens options = .error reason →
        analyze found lexed.tokens options =
          .ok [{ line := 1, column := 1, message := "Semantic analysis failed: " ++ reason,
                 severity := .error, code := some "SEMANTIC_ERROR" }] →
        { g with analyze := analyze }.lint t options = .ok report := by
  constructor
  · intro fault h
    simp only [lint, h, Except.map]
  · intro lexed htokens
    refine ⟨_, lint_of_tokenize htokens, fun _ => report_eq_iff, ?_, ?_, ?_⟩
    · intro reason silent h hs
      exact ⟨_, lint_of_tokenize htokens, report_of_failed_postLex h hs⟩
    · intro reason silent h hs
      exact ⟨_, lint_of_tokenize htokens, report_of_failed_postParse h hs⟩
    · intro found reason analyze htree h ha
      rw [report_of_failed_analysis htree h ha]
      exact lint_of_tokenize htokens

/-- A grammar whose checks and whose analysis all fail. -/
def failing : Grammar Unit Unit Unit where
  tokenize _ := .ok ⟨[], []⟩
  postLex _ _ := .error "of the tokens"
  parse _ := ⟨some (), []⟩
  explain _ _ := Diagnostic.error ⟨1, 1⟩ "not a diagram"
  analyze _ _ _ := .error "of the tree"
  postParse _ _ _ _ := .error "of the findings"

theorem failing_stages_are_kept_to_themselves :
    ∃ report, failing.lint [] {} = .ok report ∧
    (∃ other, { failing with postLex := fun _ _ => .ok [] }.lint [] {} = .ok other ∧
      report =
        ⟨other.diagnostics, ⟨.postLex, "hook failed: of the tokens"⟩ :: other.hookFailures⟩) ∧
    (∃ other, { failing with postParse := fun _ _ _ _ => .ok [] }.lint [] {} = .ok other ∧
      report =
        ⟨other.diagnostics, other.hookFailures ++ [⟨.postParse, "hook failed: of the findings"⟩]⟩) ∧
    { failing with analyze := fun _ _ _ => .ok [analysisFailed "of the tree"] }.lint [] {} =
      .ok report := by
  obtain ⟨report, hreport, -, hearly, hlate, hanalysis⟩ :=
    (a_failing_stage_is_kept_to_itself failing [] {}).2 ⟨[], []⟩ rfl
  exact ⟨report, hreport, hearly _ _ rfl rfl, hlate _ _ rfl rfl, hanalysis () _ _ rfl rfl rfl⟩

end Grammar

end DiagramLint
