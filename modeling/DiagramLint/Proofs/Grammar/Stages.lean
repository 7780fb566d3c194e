-- Where diagnostics come from. What linting reports of a text and its tokens was
-- found at one of the stages and then moved into the text; the parser and the
-- analysis find something only behind a scan without errors.
import DiagramLint.Grammar

namespace DiagramLint.Grammar

variable {κ τ ε : Type} {g : Grammar κ τ ε} {t : Text} {options : LintOptions}
  {lexed : Lexed κ}

/-- A finding of a stage of linting, as the stage makes it. -/
inductive Finding (g : Grammar κ τ ε) (t : Text) (options : LintOptions) (lexed : Lexed κ) :
    Diagnostic → Prop where
  | lexical {e : LexError} (he : e ∈ lexed.errors) : g.Finding t options lexed e.diagnostic
  | postLex {d : Diagnostic} (hd : d ∈ hookDiagnostics (g.postLex t lexed.tokens)) :
    g.Finding t options lexed d
  | parsing {e : ε} (hclean : lexed.errors = [])
    (he : e ∈ (g.parse lexed.tokens).errors) : g.Finding t options lexed (g.explain e t)
  | analysis {tree : τ} {found : List Diagnostic} {d : Diagnostic}
    (hclean : lexed.errors = [])
    (htree : (g.parse lexed.tokens).tree = some tree)
    (hfound : g.analyze tree lexed.tokens options = .ok found) (hd : d ∈ found) :
    g.Finding t options lexed d
  | failure {tree : τ} {reason : String} (hclean : lexed.errors = [])
    (htree : (g.parse lexed.tokens).tree = some tree)
    (hfailed : g.analyze tree lexed.tokens options = .error reason) :
    g.Finding t options lexed (analysisFailed reason)
  | postParse {d : Diagnostic} (tree : Option τ) (prior : List Diagnostic)
    (hd : d ∈ hookDiagnostics (g.postParse t lexed.tokens tree prior)) :
    g.Finding t options lexed d

/-- The parser runs only behind a clean scan. -/
theorem errors_of_mem_parseOf {e : ε} (h : e ∈ (g.parseOf lexed).errors) :
    lexed.errors = [] ∧ e ∈ (g.parse lexed.tokens).errors := by
  unfold Grammar.parseOf at h
  split at h
  · rename_i hnone
    exact ⟨List.isEmpty_iff.mp hnone, h⟩
  · cases h

theorem tree_of_parseOf {tree : τ} (h : (g.parseOf lexed).tree = some tree) :
    (g.parse lexed.tokens).tree = some tree := by
  unfold Grammar.parseOf at h
  split at h
  · exact h
  · cases h

theorem clean_of_parseOf {tree : τ} (h : (g.parseOf lexed).tree = some tree) :
    lexed.errors = [] := by
  unfold Grammar.parseOf at h
  split at h
  · exact List.isEmpty_iff.mp ‹_›
  · cases h

theorem finding_of_analysis {d : Diagnostic}
    (hd : d ∈ g.analysisOf (g.parseOf lexed).tree lexed.tokens options) :
    g.Finding t options lexed d := by
  unfold analysisOf at hd
  split at hd
  · cases hd
  · rename_i tree htree
    split at hd
    · rename_i found hfound
      exact .analysis (clean_of_parseOf htree) (tree_of_parseOf htree) hfound hd
    · rename_i reason hfailed
      rw [List.mem_singleton.mp hd]
      exact .failure (clean_of_parseOf htree) (tree_of_parseOf htree) hfailed

/-- Linting a text is reporting on its tokens. -/
theorem lint_eq_ok_iff {report : Report} :
    g.lint t options = .ok report ↔ ∃ lexed, g.tokenize t = .ok lexed ∧
      report = g.report t options lexed := by
  unfold lint
  cases g.tokenize t with
  | error e => simp [Except.map]
  | ok lexed => simp [Except.map, eq_comm]

/-- Every diagnostic of a text is a finding of one of the stages, moved into the text. -/
theorem exists_finding_of_mem_report {d : Diagnostic}
    (h : d ∈ (g.report t options lexed).diagnostics) :
    ∃ found, g.Finding t options lexed found ∧ d = found.clampTo t := by
  obtain ⟨found, hfound, rfl⟩ := List.mem_map.mp h
  refine ⟨found, ?_, rfl⟩
  rcases List.mem_append.mp hfound with hprior | hlast
  · simp only [priorTo, List.mem_append] at hprior
    rcases hprior with ((herror | hpost) | hparse) | hanalysis
    · obtain ⟨e, he, rfl⟩ := List.mem_map.mp herror
      exact .lexical he
    · exact .postLex hpost
    · obtain ⟨e, he, rfl⟩ := List.mem_map.mp hparse
      obtain ⟨hclean, he⟩ := errors_of_mem_parseOf he
      exact .parsing hclean he
    · exact finding_of_analysis hanalysis
  · exact .postParse _ _ hlast

end DiagramLint.Grammar
