-- The law of misspelled keywords: in every built-in dialect the repair starts
-- at the word that is reported and writes what the hint suggests. It rewrites
-- the whole word exactly when all its characters belong to words, which only
-- a word of a pie chart can fail to do.
import DiagramLint.Proofs.Flowchart.Misspellings
import DiagramLint.Proofs.Linter.Codes
import DiagramLint.Proofs.Linter.Reports
import DiagramLint.Proofs.Pie.Misspellings
import DiagramLint.Proofs.Sequence.Mending

namespace DiagramLint

/-- A token of a text as a dialect reads it: where it stands, and its characters. -/
inductive Dialect.HasToken (t : Text) : Dialect → Position → String → Prop where
  | flowchart {tok : Flowchart.Tok} (h : tok ∈ (Flowchart.tokenize t).tokens) :
    HasToken t .flowchart tok.place tok.image
  | pie {l : Lexed Pie.Kind} {tok : Pie.Tok} (hl : Pie.tokenize t = .ok l) (h : tok ∈ l.tokens) :
    HasToken t .pie tok.place tok.image
  | sequence {tok : Sequence.Tok} (h : tok ∈ (Sequence.tokenize t).tokens) :
    HasToken t .sequence tok.place tok.image

section

variable {t : Text} {options : LintOptions} {d : Diagnostic} {p : Proposal}

theorem Flowchart.rewrites_misspelled
    (hd : d ∈ (grammar.report t options (tokenize t)).diagnostics)
    (hcode : d.code = some Code.keywordMisspelled)
    (hp : replaceKeyword repairKeywords t d = some p) :
    ∃ word suggestion, Dialect.flowchart.HasToken t d.place word ∧
      Rewrites d p word suggestion word.length := by
  obtain ⟨e, he, rfl⟩ := grammar_codes.exists_error hd hcode (by decide)
  obtain ⟨hclean, he⟩ := Grammar.errors_of_mem_parseOf he
  cases e with
  | misspelledKeyword place word suggestion =>
    obtain ⟨pre, first, tok, post, hword⟩ := parse_misspelled he
    obtain ⟨hchars, before, lead, ahead, hapart⟩ :=
      hword.standsApart ((Scan.errors_eq_nil_iff (scan_eq_finished t)).mp hclean)
    have hnamed := hintedKeyword?_of_mem (by decide) hword.suggestion_mem
    obtain ⟨hplace, hrewrites⟩ := hapart.rewrites rfl rfl rfl hnamed hp
    have hwhole := hrewrites.whole.mpr (List.all_eq_true.mpr hchars)
    rw [hwhole] at hrewrites
    refine ⟨word, suggestion, ?_, hrewrites⟩
    rw [hplace, hword.place_eq, hword.word_eq]
    exact .flowchart hword.mem
  | _ => exact absurd (Option.some.inj hcode) (by decide)

theorem Pie.rewrites_misspelled {l : Lexed Kind} (hl : scan t = .finished l)
    (hd : d ∈ (grammar.report t options l).diagnostics)
    (hcode : d.code = some Code.keywordMisspelled)
    (hp : replaceKeyword repairKeywords t d = some p) :
    ∃ word suggestion taken, Dialect.pie.HasToken t d.place word ∧
      Rewrites d p word suggestion taken := by
  obtain ⟨e, he, rfl⟩ := grammar_codes.exists_error hd hcode (by decide)
  obtain ⟨hclean, he⟩ := Grammar.errors_of_mem_parseOf he
  have htokenize := tokenize_eq_ok_iff.mpr hl
  obtain rfl : (scan t).lexed = l := by rw [hl]; rfl
  cases e with
  | misspelledKeyword place word suggestion =>
    obtain ⟨pre, first, tok, post, hword⟩ := parse_misspelled he
    obtain ⟨before, lead, ahead, hapart⟩ :=
      hword.standsApart ((Scan.errors_eq_nil_iff hl).mp hclean)
    have hnamed := hintedKeyword?_of_mem (by decide) hword.suggestion_mem
    obtain ⟨hplace, hrewrites⟩ := hapart.rewrites rfl rfl rfl hnamed hp
    refine ⟨word, suggestion, _, ?_, hrewrites⟩
    rw [hplace, hword.place_eq, hword.word_eq]
    exact .pie htokenize hword.mem
  | _ => exact absurd (Option.some.inj hcode) (by decide)

theorem Sequence.rewrites_misspelled
    (hd : d ∈ (grammar.report t options (tokenize t)).diagnostics)
    (hcode : d.code = some Code.keywordMisspelled)
    (hp : replaceKeyword repairKeywords t d = some p) :
    ∃ word suggestion, Dialect.sequence.HasToken t d.place word ∧
      Rewrites d p word suggestion word.length := by
  obtain ⟨e, he, rfl⟩ := grammar_codes.exists_error hd hcode (by decide)
  obtain ⟨hlexed, he⟩ := Grammar.errors_of_mem_parseOf he
  have hclean : lexStep.Clean (Reader.ofText t) :=
    (Scan.errors_eq_nil_iff (scan_eq_finished t)).mp hlexed
  cases e with
  | misspelledKeyword place word suggestion =>
    obtain ⟨pre, first, tok, post, hsplit, hfirst, hk, harrow, rfl, rfl, hw⟩ := parse_stems _ _ he
    have hmem : tok ∈ (tokenize t).tokens := by
      rw [hsplit]
      simp
    rw [← List.singleton_append, ← List.append_assoc] at hsplit
    obtain ⟨s, before, lead, ahead, hf⟩ := exists_found hclean hsplit (.inl hk)
    have hlead : lead.reverse.takeWhile isWordChar = [] := by
      refine hf.lead_of_opening hk fun last hlast => ?_
      rw [List.getLast?_concat] at hlast
      rw [← Option.some.inj hlast]
      exact hfirst
    have hahead := hf.ahead_of_opening hclean hk harrow
    have hchars : ∀ c ∈ tok.image.toList, isWordChar c = true := by
      intro c hc
      rw [← hahead] at hc
      exact List.mem_takeWhile_imp hc
    have hapart : StandsApart t tok.place tok.image.toList before lead ahead :=
      ⟨hf.line_at, hf.place_eq, hf.image_isPrefix,
        by rw [String.length_toList]; exact hf.image_length, hlead,
        by rw [hahead, List.takeWhile_eq_self_iff.mpr hchars]⟩
    have hnamed := hintedKeyword?_of_mem (by decide) hw
    obtain ⟨hplace, hrewrites⟩ := hapart.rewrites rfl rfl rfl hnamed hp
    rw [hrewrites.whole.mpr (List.all_eq_true.mpr hchars)] at hrewrites
    refine ⟨tok.image, suggestion, ?_, hrewrites⟩
    rw [hplace]
    exact .sequence hmem
  | _ => exact absurd (Option.some.inj hcode) (by decide)

end

/-- A misspelled keyword is rewritten from its first character on into what the hint suggests; the
whole word is, exactly when all its characters belong to words, and always outside pie charts. -/
theorem a_misspelled_keyword_is_rewritten_in_place {dialect : Dialect}
    (hdialect : dialect ∈ Dialect.builtin) (t : Text) (options : LintOptions) {report : Report}
    (hreport : dialect.lint t options = .ok report) {d : Diagnostic} (hd : d ∈ report.diagnostics)
    (hcode : d.code = some Code.keywordMisspelled) {strategy : Strategy}
    (hs : Registry.builtin.get? Code.keywordMisspelled = some strategy) {p : Proposal}
    (hp : strategy.propose t d = .ok (some p)) :
    ∃ word suggestion taken, dialect.HasToken t d.place word ∧
      Rewrites d p word suggestion taken ∧ (dialect.id ≠ "pie" → taken = word.length) := by
  have hcatalog : Registry.builtin.get? Code.keywordMisspelled =
      some (.replaceKeyword repairKeywords) := rfl
  rw [hcatalog, Option.some.injEq] at hs
  rw [← hs] at hp
  have hp := Except.ok.inj hp
  simp only [Dialect.builtin, List.mem_cons, List.not_mem_nil, or_false] at hdialect
  rcases hdialect with rfl | rfl | rfl
  · obtain rfl := Except.ok.inj ((Flowchart.lint_eq t options).symm.trans hreport)
    obtain ⟨word, suggestion, htoken, h⟩ := Flowchart.rewrites_misspelled hd hcode hp
    exact ⟨word, suggestion, _, htoken, h, fun _ => rfl⟩
  · obtain ⟨l, hl, rfl⟩ := Pie.lint_eq_ok_iff.mp hreport
    obtain ⟨word, suggestion, taken, htoken, h⟩ := Pie.rewrites_misspelled hl hd hcode hp
    exact ⟨word, suggestion, taken, htoken, h, fun hid => absurd rfl hid⟩
  · obtain rfl := Except.ok.inj ((Sequence.lint_eq t options).symm.trans hreport)
    obtain ⟨word, suggestion, htoken, h⟩ := Sequence.rewrites_misspelled hd hcode hp
    exact ⟨word, suggestion, _, htoken, h, fun _ => rfl⟩

/-- A pie chart with a misspelled title. -/
def misspelledTitle : Text := "pie\ntilte Pets\n\"Dogs\" : 1".toList

/-- What is reported of it. -/
def misspelledTitleFinding : Diagnostic where
  line := 2
  column := 1
  message := "Unknown keyword 'tilte', did you mean 'title'?"
  severity := .error
  code := some Code.keywordMisspelled
  hint := some (keywordHint "title")
  length := some 5

theorem misspelledTitle_is_rewritten_in_place :
    ∃ report, Dialect.pie.lint misspelledTitle {} = .ok report ∧
      misspelledTitleFinding ∈ report.diagnostics ∧
      ∃ word suggestion taken,
        Dialect.pie.HasToken misspelledTitle misspelledTitleFinding.place word ∧
          Rewrites misspelledTitleFinding (.safe (.replaceSpan 2 1 5 "title".toList)) word suggestion
            taken ∧ (Dialect.pie.id ≠ "pie" → taken = word.length) := by
  obtain ⟨report, hreport, hd⟩ : ∃ report, Dialect.pie.lint misspelledTitle {} = .ok report ∧
      misspelledTitleFinding ∈ report.diagnostics := by decide +kernel
  exact ⟨report, hreport, hd, a_misspelled_keyword_is_rewritten_in_place
    (by simp [Dialect.builtin]) misspelledTitle {} hreport hd rfl
    (show _ = some (.replaceKeyword repairKeywords) from rfl) (by decide +kernel)⟩

/-- A pie chart with a title misspelled by a full stop. -/
def dottedTitle : Text := "pie\ntitl.e Pets\n\"Dogs\" : 1".toList

/-- What is reported of it. -/
def dottedTitleFinding : Diagnostic where
  line := 2
  column := 1
  message := "Unknown keyword 'titl.e', did you mean 'title'?"
  severity := .error
  code := some Code.keywordMisspelled
  hint := some (keywordHint "title")
  length := some 6

/-- The repair takes a full stop for the end of the word, and rewrites only what is before it. -/
theorem a_dotted_keyword_is_rewritten_in_part :
    ¬ ∀ dialect ∈ Dialect.builtin, ∀ (t : Text) (options : LintOptions) (report : Report),
      dialect.lint t options = .ok report → ∀ d ∈ report.diagnostics,
        d.code = some Code.keywordMisspelled →
          ∀ strategy p, Registry.builtin.get? Code.keywordMisspelled = some strategy →
            strategy.propose t d = .ok (some p) →
              ∃ suggestion, d.hint = some (keywordHint suggestion) ∧
                p.edits = [.replaceSpan d.line d.column d.spanLength suggestion.toList] := by
  intro h
  obtain ⟨report, hreport, hd⟩ : ∃ report, Dialect.pie.lint dottedTitle {} = .ok report ∧
      dottedTitleFinding ∈ report.diagnostics := by decide +kernel
  have hp : (Strategy.replaceKeyword repairKeywords).propose dottedTitle dottedTitleFinding =
      .ok (some (.safe (.replaceSpan 2 1 4 "title".toList))) := by decide +kernel
  obtain ⟨suggestion, -, hedits⟩ := h .pie (by simp [Dialect.builtin]) dottedTitle {} report
    hreport _ hd rfl (.replaceKeyword repairKeywords) _ rfl hp
  have hstop : (some ⟨2, 5⟩ : Option Position) = some ⟨2, 7⟩ :=
    congrArg Edit.stop (List.cons.inj hedits).1
  exact absurd hstop (by decide)

end DiagramLint
