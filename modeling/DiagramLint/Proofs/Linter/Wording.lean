-- What diagnostics say. A message is on one line, and so is a code: the words
-- of the linter have no line feed, and what they take from the text is a
-- character, the image of a token, or a label or an id that is cut from one.
import DiagramLint.Linter.Basic
import DiagramLint.Proofs.Flowchart.Showing
import DiagramLint.Proofs.Lexing.Inline
import DiagramLint.Proofs.Linter.Reports
import DiagramLint.Proofs.Pie.Parser
import DiagramLint.Proofs.Pie.Statements
import DiagramLint.Proofs.Sequence.Parser

namespace DiagramLint

/-! ## Diagnostics on one line -/

/-- What the diagnostic says is on one line, and so is its code. -/
structure Diagnostic.Inline (d : Diagnostic) : Prop where
  message : OneLine d.message
  code : ∀ code ∈ d.code, OneLine code

namespace Diagnostic

variable {d : Diagnostic}

@[simp] theorem inline_withHint (hint : String) : (d.withHint hint).Inline ↔ d.Inline :=
  ⟨fun h => ⟨h.message, h.code⟩, fun h => ⟨h.message, h.code⟩⟩

@[simp] theorem inline_withLength (length : Nat) : (d.withLength length).Inline ↔ d.Inline :=
  ⟨fun h => ⟨h.message, h.code⟩, fun h => ⟨h.message, h.code⟩⟩

@[simp] theorem inline_withSeverity (s : Severity) : (d.withSeverity s).Inline ↔ d.Inline :=
  ⟨fun h => ⟨h.message, h.code⟩, fun h => ⟨h.message, h.code⟩⟩

@[simp] theorem inline_clampTo (t : Text) : (d.clampTo t).Inline ↔ d.Inline :=
  ⟨fun h => ⟨h.message, h.code⟩, fun h => ⟨h.message, h.code⟩⟩

@[simp] theorem inline_make (s : Severity) (place : Position) (message code : String) :
    ((make s place message).withCode code).Inline ↔ OneLine message ∧ OneLine code := by
  constructor
  · exact fun h => ⟨h.message, h.code code rfl⟩
  · rintro ⟨hmessage, hcode⟩
    refine ⟨hmessage, ?_⟩
    rintro _ ⟨⟩
    exact hcode

@[simp] theorem inline_error (place : Position) (message code : String) :
    ((error place message).withCode code).Inline ↔ OneLine message ∧ OneLine code :=
  inline_make _ _ _ _

theorem inline_singleton (h : d.Inline) : ∀ found ∈ [d], found.Inline := by
  intro found hd
  rw [List.mem_singleton.mp hd]
  exact h

end Diagnostic

/-! ## Every stage -/

namespace Grammar

variable {κ τ ε : Type} {g : Grammar κ τ ε} {t : Text} {options : LintOptions} {lexed : Lexed κ}

/-- What each stage of linting finds in a text with its tokens is said on one line. -/
structure AllInline (g : Grammar κ τ ε) (t : Text) (options : LintOptions)
    (lexed : Lexed κ) : Prop where
  lexical : ∀ e ∈ lexed.errors, OneLine e.message
  postLex : ∀ d ∈ hookDiagnostics (g.postLex t lexed.tokens), d.Inline
  parsing : lexed.errors = [] → ∀ e ∈ (g.parse lexed.tokens).errors, (g.explain e t).Inline
  analysis : lexed.errors = [] → ∀ tree found, (g.parse lexed.tokens).tree = some tree →
    g.analyze tree lexed.tokens options = .ok found → ∀ d ∈ found, d.Inline
  failure : ∀ tree reason, g.analyze tree lexed.tokens options = .error reason → OneLine reason
  postParse : ∀ tree prior, ∀ d ∈ hookDiagnostics (g.postParse t lexed.tokens tree prior),
    d.Inline

theorem AllInline.report (h : g.AllInline t options lexed) :
    ∀ d ∈ (g.report t options lexed).diagnostics, d.Inline := by
  intro d hd
  obtain ⟨found, hfound, rfl⟩ := exists_finding_of_mem_report hd
  rw [Diagnostic.inline_clampTo]
  cases hfound with
  | lexical he =>
    unfold LexError.diagnostic
    simp +decide [h.lexical _ he]
  | postLex hpost => exact h.postLex found hpost
  | parsing hclean he => exact h.parsing hclean _ he
  | analysis hclean htree hok hmem => exact h.analysis hclean _ _ htree hok found hmem
  | failure hclean htree hfailed =>
    unfold analysisFailed
    simp +decide [h.failure _ _ hfailed]
  | postParse tree prior hend => exact h.postParse tree prior found hend

end Grammar

/-- However a token is described, it is on one line. -/
theorem described_oneLine {κ ε : Type} [Recovery κ ε] [DecidableEq κ] {tok : Token κ}
    (h : tok.Inline Recovery.newline) : OneLine (described tok) := by
  unfold described
  split
  · decide
  · split
    · decide
    · rename_i hn _
      simp +decide [h.image hn]

/-! ## Flowcharts -/

namespace Flowchart

variable {tok : Tok} {ts : Toks}

theorem tokenFindings_inline (h : tok.Inline .newline) (previous : Option Tok) :
    ∀ d ∈ tokenFindings previous tok, d.Inline := by
  unfold tokenFindings
  split
  · rename_i hk
    have himage := h.image (by rw [hk]; decide)
    refine Diagnostic.inline_singleton ?_
    unfold linkFinding
    simp +decide [himage]
  · unfold quotedLabelFindings
    split
    · exact Diagnostic.inline_singleton (by simp +decide)
    · exact Diagnostic.inline_singleton (by simp +decide)
    · exact fun _ hd => by cases hd
  · intro d hd
    rcases List.mem_append.mp hd with hd | hd
    · unfold bareQuoteFindings at hd
      split at hd
      · exact Diagnostic.inline_singleton (by simp +decide) d hd
      · cases hd
    · unfold parenFindings at hd
      split at hd
      · split at hd
        · exact Diagnostic.inline_singleton (by simp +decide) d hd
        · cases hd
      · cases hd
  · exact fun _ hd => by cases hd

theorem explain_inline {e : ParseError} (h : e.From (Token.Inline .newline)) :
    (explain e).Inline := by
  have hclosers : ∀ closer ∈ shapeClosers, OneLine closer := by decide
  have hexpected : ∀ expected ∈ expectations, OneLine expected := by decide
  have hwords : ∀ word ∈ misspellable, OneLine word := by decide
  cases e with
  | mismatchedCloser place found expected =>
    obtain ⟨tok, htok, -, hk, rfl, hcloser⟩ := h
    have himage := htok.image (by rw [hk]; decide)
    simp +decide [explain, himage, hclosers expected hcloser]
  | unclosed place expected =>
    obtain ⟨-, -, -, hcloser⟩ := h
    simp +decide [explain, hclosers expected hcloser]
  | missingArrow | trailingStatement | endWithoutBlock => simp +decide [explain]
  | misspelledKeyword place word suggestion =>
    obtain ⟨tok, htok, hs, -, rfl, hword⟩ := h
    have himage := htok.image fun hn => by rw [hn] at hs; cases hs
    simp +decide [explain, himage, hwords suggestion hword]
  | blockMissingEnd place openedAt => simp +decide [explain]
  | unexpected place length found expected =>
    obtain ⟨tok, htok, rfl, hmem⟩ := h
    simp +decide [explain, described_oneLine htok, hexpected expected hmem]

theorem errors_inline (h : ∀ tok ∈ ts, tok.Inline .newline) :
    ∀ e ∈ (parse ts).errors, (explain e).Inline := by
  intro e he
  rcases parse_from h e he with hfrom | ⟨tok, htok, rfl⟩
  · exact explain_inline hfrom
  · simp +decide [explain, described_oneLine htok]

/-- The id of a subgraph is the start of the text behind its keyword. -/
theorem opening_id_oneLine (h : ∀ tok ∈ ts, tok.Inline .newline) :
    ∀ s ∈ openings ts, ∀ id ∈ s.id, OneLine id := by
  fun_induction openings ts with
  | case1 => exact fun _ hs => by cases hs
  | case3 t rest _ ih => exact ih (List.forall_mem_cons.mp h).2
  | case2 t rest _ ih =>
    have hrest := (List.forall_mem_cons.mp h).2
    refine List.forall_mem_cons.mpr ⟨?_, ih hrest⟩
    intro id hid
    obtain ⟨text, htext, hid⟩ := Option.bind_eq_some_iff.mp hid
    unfold keywordText at htext
    split at htext
    · rename_i next more
      split at htext
      · rename_i hk
        cases htext
        have himage := (hrest next List.mem_cons_self).image (by rw [hk]; decide)
        unfold subgraphId at hid
        dsimp only at hid
        split at hid
        · cases hid
        · cases hid
          rw [oneLine_ofList]
          exact fun hm => himage ((List.takeWhile_sublist _).subset hm)
      · cases htext
    · cases htext

theorem duplicateIds_inline {ids : List (String × Position)} (h : ∀ entry ∈ ids, OneLine entry.1)
    (seen : List (String × Nat)) : ∀ d ∈ duplicateIds seen ids, d.Inline := by
  induction ids generalizing seen with
  | nil => exact fun _ hd => by cases hd
  | cons entry rest ih =>
    obtain ⟨hid, hrest⟩ := List.forall_mem_cons.mp h
    unfold duplicateIds
    split
    · refine List.forall_mem_cons.mpr ⟨?_, ih hrest _⟩
      simp +decide [hid]
    · exact ih hrest _

theorem analyze_inline {t : Text} {chart : Chart}
    (htree : (parse (tokenize t).tokens).tree = some chart) {options : LintOptions}
    {found : List Diagnostic} (hf : analyze chart (tokenize t).tokens options = .ok found) :
    ∀ d ∈ found, d.Inline := by
  intro d hd
  unfold analyze at hf
  cases hr : directionRequired options with
  | error reason =>
    rw [hr] at hf
    cases hf
  | ok required =>
    rw [hr] at hf
    cases hf
    rcases List.mem_append.mp hd with hd | hd
    · split at hd
      · refine Diagnostic.inline_singleton ?_ d hd
        unfold directionFinding
        simp +decide
      · cases hd
    · refine duplicateIds_inline ?_ [] d hd
      intro entry hentry
      rw [subgraphsIn_parse (terminated_tokenize t) (tidy_tokenize t) htree] at hentry
      obtain ⟨s, hs, hnamed⟩ := List.mem_filterMap.mp hentry
      obtain ⟨id, hid, rfl⟩ := Option.map_eq_some_iff.mp hnamed
      exact opening_id_oneLine (inline_tokenize t) s hs id hid

theorem analyze_reason {chart : Chart} {ts : Toks} {options : LintOptions} {reason : String}
    (h : analyze chart ts options = .error reason) : OneLine reason := by
  unfold analyze directionRequired at h
  split at h
  · cases h
  · cases h
  · cases h
    decide

theorem allInline (t : Text) (options : LintOptions) :
    grammar.AllInline t options (tokenize t) where
  lexical := errors_oneLine t
  postLex := by
    intro d hd
    obtain ⟨tok, hm, previous, hfinding⟩ := exists_of_mem_tokenChecks hd
    exact tokenFindings_inline (inline_tokenize t tok hm) previous d hfinding
  parsing := fun _ => errors_inline (inline_tokenize t)
  analysis := fun _ _ _ htree hok => analyze_inline htree hok
  failure := fun _ _ hfailed => analyze_reason hfailed
  postParse := by
    intro tree prior d hd
    obtain ⟨tok, -, -, -, rfl⟩ := exists_of_mem_reservedIds hd
    unfold reservedFinding
    simp +decide

end Flowchart

/-! ## Sequence diagrams -/

namespace Sequence

variable {tok : Tok} {ts : Toks}

theorem branch_oneLine {keyword parent : String} (h : branchParent? keyword = some parent) :
    OneLine keyword ∧ OneLine parent := by
  unfold branchParent? at h
  split at h
  · cases h
    decide
  · cases h
    decide
  · cases h
    decide
  · cases h

theorem explain_inline {e : ParseError} (h : e.From (Token.Inline .newline)) :
    (explain e).Inline := by
  have hexpected : ∀ expected ∈ expectations, OneLine expected := by decide
  have hwords : ∀ word ∈ keywords, OneLine word := by decide
  have hblocks : ∀ keyword ∈ blockKeywords, OneLine keyword := by decide
  cases e with
  | missingColon | endWithoutBlock => simp +decide [explain]
  | misspelledKeyword place word suggestion =>
    obtain ⟨tok, htok, hs, -, rfl, hword⟩ := h
    have himage := htok.image fun hn => by rw [hn] at hs; cases hs
    simp +decide [explain, himage, hwords suggestion hword]
  | blockMissingEnd place keyword openedAt => simp +decide [explain, hblocks keyword h]
  | branchOutsideBlock place keyword parent => simp +decide [explain, branch_oneLine h]
  | unexpected place length found expected =>
    obtain ⟨tok, htok, rfl, hmem⟩ := h
    simp +decide [explain, described_oneLine htok, hexpected expected hmem]

theorem errors_inline (h : ∀ tok ∈ ts, tok.Inline .newline) :
    ∀ e ∈ (parse ts).errors, (explain e).Inline := by
  intro e he
  rcases parse_from h e he with hfrom | ⟨tok, htok, rfl⟩
  · exact explain_inline hfrom
  · simp +decide [explain, described_oneLine htok]

theorem arrowFinding_inline {d : Diagnostic} (h : tok.Inline .newline)
    (hd : arrowFinding? tok = some d) : d.Inline := by
  unfold arrowFinding? at hd
  split at hd
  · rename_i hk
    have himage := h.image (by rw [hk]; decide)
    cases hd
    simp +decide [himage]
  · cases hd

theorem allInline (t : Text) (options : LintOptions) :
    grammar.AllInline t options (tokenize t) where
  lexical := errors_oneLine t
  postLex := by
    intro d hd
    obtain ⟨tok, hm, hfinding⟩ := List.mem_filterMap.mp hd
    exact arrowFinding_inline (inline_tokenize t tok hm) hfinding
  parsing := fun _ => errors_inline (inline_tokenize t)
  analysis := by
    intro _ tree found _ hok
    cases hok
    exact fun _ hd => by cases hd
  failure := fun _ _ hfailed => by cases hfailed
  postParse := fun _ _ _ hd => by cases hd

end Sequence

/-! ## Pie charts -/

namespace Pie

variable {tok : Tok} {ts : Toks}

/-- Words put together are a label on one line. -/
theorem words_oneLine {words : Toks} (h : ∀ t ∈ words, t.Inline .newline ∧ t.kind = .word) :
    OneLine (" ".intercalate (words.map (·.image))) := by
  refine oneLine_intercalate (by decide) ?_
  intro s hs
  obtain ⟨tok, hm, rfl⟩ := List.mem_map.mp hs
  obtain ⟨htok, hk⟩ := h tok hm
  exact htok.image (by rw [hk]; decide)

theorem explain_inline {e : ParseError} (h : e.From (Token.Inline .newline)) :
    (explain e).Inline := by
  have hexpected : ∀ expected ∈ expectations, OneLine expected := by decide
  have hwords : ∀ word ∈ keywords, OneLine word := by decide
  cases e with
  | missingColon => simp +decide [explain]
  | misspelledKeyword place word suggestion =>
    obtain ⟨tok, htok, hs, -, rfl, hword⟩ := h
    have himage := htok.image fun hn => by rw [hn] at hs; cases hs
    simp +decide [explain, himage, hwords suggestion hword]
  | unquotedLabel place length label =>
    obtain ⟨words, hmem, rfl⟩ := h
    simp +decide [explain, words_oneLine hmem]
  | unexpected place length found expected =>
    obtain ⟨tok, htok, rfl, hmem⟩ := h
    simp +decide [explain, described_oneLine htok, hexpected expected hmem]

theorem errors_inline (h : ∀ tok ∈ ts, tok.Inline .newline) :
    ∀ e ∈ (parse ts).errors, (explain e).Inline := by
  intro e he
  rcases parse_from h e he with hfrom | ⟨tok, htok, rfl⟩
  · exact explain_inline hfrom
  · simp +decide [explain, described_oneLine htok]

theorem escapeFinding_inline {d : Diagnostic} (hd : escapeFinding? tok = some d) : d.Inline := by
  unfold escapeFinding? at hd
  split at hd
  · obtain ⟨i, -, rfl⟩ := Option.map_eq_some_iff.mp hd
    simp +decide
  · cases hd

/-! ### Labels -/

theorem unquote_oneLine {image : String} (h : OneLine image) : OneLine (unquote image) := by
  unfold unquote
  split
  · rename_i rest heq
    split
    · rw [oneLine_ofList]
      intro hm
      refine h ?_
      rw [heq]
      exact List.mem_cons_of_mem _ (List.mem_of_mem_dropLast hm)
    · exact h
  · exact h

theorem entryValue_label {label : String} {place : Position} {e : Entry}
    (h : (entryValue label place ts).value = some e) : e.label = label := by
  unfold entryValue at h
  split at h
  · split at h
    · split at h
      · cases h
        rfl
      · cases h
    · cases h
  · cases h

theorem quotedEntry_label {e : Entry} (h : (quotedEntry tok ts).value = some e) :
    e.label = unquote tok.image := by
  unfold quotedEntry at h
  split at h
  · split at h
    · exact entryValue_label h
    · split at h
      · exact entryValue_label h
      · cases h
  · cases h

theorem bareEntry_label {e : Entry} (h : (bareEntry tok ts).value = some e) :
    e.label = " ".intercalate ((tok :: ts.takeWhile (·.kind == .word)).map (·.image)) := by
  unfold bareEntry at h
  split at h
  · cases h
  · split at h
    · split at h
      · exact entryValue_label h
      · cases h
    · cases h

/-- The label of an entry is on one line: it is cut from a string or put together from words. -/
theorem statement_label {e : Entry} (h : ∀ t ∈ tok :: ts, t.Inline .newline)
    (he : (statement tok ts).value = some (.entry e)) : OneLine e.label := by
  obtain ⟨htok, hts⟩ := List.forall_mem_cons.mp h
  unfold statement at he
  split at he
  · cases he
  · cases he
  · rw [endLine_value] at he
    cases he
  · rename_i hk
    rw [endLine_value] at he
    obtain ⟨own, hown, heq⟩ := Option.map_eq_some_iff.mp he
    cases heq
    rw [quotedEntry_label hown]
    exact unquote_oneLine (htok.image (by rw [hk]; decide))
  · rename_i hk
    rw [endLine_value] at he
    obtain ⟨own, hown, heq⟩ := Option.map_eq_some_iff.mp he
    cases heq
    rw [bareEntry_label hown]
    refine words_oneLine (List.forall_mem_cons.mpr ⟨⟨htok, hk⟩, fun t hm => ?_⟩)
    have hword := List.mem_takeWhile_imp (p := fun x : Tok => x.kind == Kind.word) hm
    exact ⟨hts t ((List.takeWhile_sublist _).subset hm), beq_iff_eq.mp hword⟩
  · rw [endLine_value] at he
    cases he

theorem statements_labels (h : ∀ t ∈ ts, t.Inline .newline) :
    ∀ e ∈ ((statements ts).filterMap (·.1)).filterMap Part.entry?, OneLine e.label := by
  fun_induction statements ts with
  | case1 => exact fun _ he => by cases he
  | case2 => exact fun _ he => by cases he
  | case3 t rest _ ih =>
    have hrest : ∀ x ∈ (statement t rest).rest, x.Inline .newline := fun x hm =>
      (List.forall_mem_cons.mp h).2 x ((statement_isSuffix t rest).subset hm)
    intro e he
    cases hv : (statement t rest).value with
    | none =>
      rw [hv] at he
      exact ih hrest e he
    | some part =>
      rw [hv] at he
      cases part with
      | showData | title => exact ih hrest e he
      | entry own =>
        rcases List.mem_cons.mp he with rfl | he
        · exact statement_label h hv
        · exact ih hrest e he

theorem entries_labels {chart : Chart} (h : ∀ t ∈ ts, t.Inline .newline)
    (htree : (parse ts).tree = some chart) : ∀ e ∈ chart.entries, OneLine e.label := by
  obtain ⟨gap, header, rest, rfl, hgap, hheader⟩ := exists_tree_iff.mp ⟨chart, htree⟩
  rw [parse_of_header hgap hheader] at htree
  obtain rfl := Option.some.inj htree
  rw [entries_foldl]
  exact statements_labels fun t hm => h t (by simp [hm])

theorem valueFindings_inline {e : Entry} (h : OneLine e.label) (strict : Bool) :
    ∀ d ∈ valueFindings e strict, d.Inline := by
  unfold valueFindings
  dsimp only
  split
  · exact Diagnostic.inline_singleton (by simp +decide [h])
  · split
    · exact Diagnostic.inline_singleton (by simp +decide [h])
    · exact fun _ hd => by cases hd

theorem entryFindings_inline (strict : Bool) {entries : List Entry}
    (h : ∀ e ∈ entries, OneLine e.label) (seen : List (String × Nat)) :
    ∀ d ∈ entryFindings strict seen entries, d.Inline := by
  induction entries generalizing seen with
  | nil => exact fun _ hd => by cases hd
  | cons e rest ih =>
    obtain ⟨he, hrest⟩ := List.forall_mem_cons.mp h
    intro d hd
    rcases List.mem_append.mp hd with hd | hd
    · exact valueFindings_inline he strict d hd
    · split at hd
      · rcases List.mem_cons.mp hd with rfl | hd
        · simp +decide [he]
        · exact ih hrest _ d hd
      · exact ih hrest _ d hd

theorem allInline {t : Text} {l : Lexed Kind} (hl : scan t = .finished l) (options : LintOptions) :
    grammar.AllInline t options l where
  lexical := by
    have h := errors_oneLine t
    rwa [hl] at h
  postLex := by
    intro d hd
    obtain ⟨tok, -, hfinding⟩ := List.mem_filterMap.mp hd
    exact escapeFinding_inline hfinding
  parsing := fun _ => errors_inline (inline_scan hl)
  analysis := by
    intro _ tree found htree hok
    cases hok
    exact entryFindings_inline options.strict (entries_labels (inline_scan hl) htree) []
  failure := fun _ _ hfailed => by cases hfailed
  postParse := fun _ _ _ hd => by cases hd

end Pie

/-! ## Linting -/

/-- Whatever text it is given, a built-in dialect says on one line what it reports. -/
theorem Dialect.lint_inline {dialect : Dialect} (h : dialect ∈ builtin) {t : Text}
    {options : LintOptions} {report : Report} (hreport : dialect.lint t options = .ok report) :
    ∀ d ∈ report.diagnostics, d.Inline :=
  forall_of_lint h (fun _ => (Flowchart.allInline t options).report)
    (fun _ _ hl => (Pie.allInline hl options).report)
    (fun _ => (Sequence.allInline t options).report) hreport

namespace Linter

variable {l : Linter}

theorem filter_inline {diagnostics : List Diagnostic} (h : ∀ d ∈ diagnostics, d.Inline) :
    ∀ d ∈ l.filter diagnostics, d.Inline := by
  intro d hd
  obtain ⟨own, hown, rfl⟩ := List.mem_map.mp hd
  have hinline := h own (List.mem_filter.mp hown).1
  unfold adjust
  split
  · rwa [Diagnostic.inline_withSeverity]
  · exact hinline

/-- So does a linter with the built-in dialects, whatever its configuration. -/
theorem lintText_inline (hl : l.dialects = Dialect.builtin) {t : Text} {path : String}
    {report : FileReport} (h : l.lintText t path = .ok report) :
    ∀ d ∈ report.diagnostics, d.Inline := by
  unfold lintText at h
  split at h
  · rename_i dialect hdetected
    rw [detect?, hl] at hdetected
    have hbuiltin := List.mem_of_find?_eq_some hdetected
    obtain ⟨found, hfound, rfl⟩ := map_eq_ok_iff.mp h
    obtain ⟨ds, hds, rfl⟩ := map_eq_ok_iff.mp hfound
    obtain ⟨own, hown, rfl⟩ := Dialect.diagnostics_eq_ok_iff.mp hds
    exact filter_inline (Dialect.lint_inline hbuiltin hown)
  · cases h
    refine filter_inline (Diagnostic.inline_singleton ?_)
    unfold unknown unknownDiagram
    simp +decide

end Linter

end DiagramLint
