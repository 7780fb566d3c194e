-- Which stage of linting reports which codes. Each check of a language has
-- codes of its own, so a diagnostic with another code stems from an error of
-- the parser.
import DiagramLint.Dialect
import DiagramLint.Proofs.Grammar.Stages

namespace DiagramLint

/-- The findings all have a code, which is one of these. -/
def Coded (codes : List String) (found : List Diagnostic) : Prop :=
  ∀ d ∈ found, ∃ code ∈ codes, d.code = some code

theorem filter_hasCode_eq_nil {code : String} {found : List Diagnostic}
    (h : ∀ d ∈ found, d.code ≠ some code) : found.filter (·.hasCode code) = [] :=
  List.filter_eq_nil_iff.mpr fun d hd hcode => h d hd (beq_iff_eq.mp hcode)

namespace Coded

variable {codes : List String} {a b : List Diagnostic}

theorem nil : Coded codes [] := fun _ hd => by cases hd

theorem append (ha : Coded codes a) (hb : Coded codes b) : Coded codes (a ++ b) := by
  intro d hd
  rcases List.mem_append.mp hd with hd | hd
  · exact ha d hd
  · exact hb d hd

theorem cons {d : Diagnostic} {code : String} (hd : d.code = some code) (hc : code ∈ codes)
    (ha : Coded codes a) : Coded codes (d :: a) := by
  intro d' hd'
  rcases List.mem_cons.mp hd' with rfl | hd'
  · exact ⟨code, hc, hd⟩
  · exact ha d' hd'

theorem mono {more : List String} (ha : Coded codes a) (h : codes ⊆ more) : Coded more a := by
  intro d hd
  obtain ⟨code, hcode, heq⟩ := ha d hd
  exact ⟨code, h hcode, heq⟩

theorem single {d : Diagnostic} {code : String} (hd : d.code = some code) (hc : code ∈ codes) :
    Coded codes [d] :=
  cons hd hc nil

theorem ne (h : Coded codes a) {d : Diagnostic} (hd : d ∈ a) {code : String} (hc : code ∉ codes) :
    d.code ≠ some code := by
  obtain ⟨own, hown, heq⟩ := h d hd
  rw [heq]
  intro hsame
  cases hsame
  exact hc hown

theorem filter_eq_nil (h : Coded codes a) {code : String} (hc : code ∉ codes) :
    a.filter (·.hasCode code) = [] :=
  filter_hasCode_eq_nil fun _ hd => h.ne hd hc

theorem filter_eq_self {code : String} (h : Coded [code] a) : a.filter (·.hasCode code) = a := by
  refine List.filter_eq_self.mpr fun d hd => beq_iff_eq.mpr ?_
  obtain ⟨own, hown, heq⟩ := h d hd
  rw [heq, List.mem_singleton.mp hown]

end Coded

namespace Grammar

variable {κ τ ε : Type}

/-- The codes of the findings on tokens, on the tree and behind everything else. -/
structure Codes (g : Grammar κ τ ε) (onTokens onTree last : List String) : Prop where
  postLex : ∀ t tokens, Coded onTokens (hookDiagnostics (g.postLex t tokens))
  analyze : ∀ tree tokens options found, g.analyze tree tokens options = .ok found →
    Coded onTree found
  postParse : ∀ t tokens tree prior, Coded last (hookDiagnostics (g.postParse t tokens tree prior))

/-- A diagnostic with a code that no check has is an error of the parser. -/
theorem Codes.exists_error {g : Grammar κ τ ε} {onTokens onTree last : List String}
    (h : g.Codes onTokens onTree last) {t : Text} {options : LintOptions} {lexed : Lexed κ}
    {d : Diagnostic} (hd : d ∈ (g.report t options lexed).diagnostics) {code : String}
    (hcode : d.code = some code)
    (hno : code ∉ Code.lexError :: Code.semanticError :: (onTokens ++ onTree ++ last)) :
    ∃ e ∈ (g.parseOf lexed).errors, d = (g.explain e t).clampTo t := by
  simp only [List.mem_cons, List.mem_append, not_or] at hno
  obtain ⟨hlex, hsemantic, ⟨htokens, htree⟩, hlast⟩ := hno
  obtain ⟨found, hfound, rfl⟩ := exists_finding_of_mem_report hd
  have hcode : found.code = some code := hcode
  cases hfound with
  | lexical he => exact absurd (Option.some.inj hcode).symm hlex
  | postLex hpost => exact absurd hcode ((h.postLex _ _).ne hpost htokens)
  | @parsing e hclean he =>
    refine ⟨e, ?_, rfl⟩
    rw [parseOf, hclean]
    exact he
  | analysis _ _ hok hmem => exact absurd hcode ((h.analyze _ _ _ _ hok).ne hmem htree)
  | failure => exact absurd (Option.some.inj hcode).symm hsemantic
  | postParse tree prior hend => exact absurd hcode ((h.postParse _ _ _ _).ne hend hlast)

/-- A diagnostic with a code that only the checks on tokens have is one of their findings. -/
theorem Codes.exists_check {g : Grammar κ τ ε} {onTokens onTree last : List String}
    (h : g.Codes onTokens onTree last) {t : Text} {options : LintOptions} {lexed : Lexed κ}
    {d : Diagnostic} (hd : d ∈ (g.report t options lexed).diagnostics) {code : String}
    (hcode : d.code = some code)
    (hno : code ∉ Code.lexError :: Code.semanticError :: (onTree ++ last))
    (hexplain : ∀ e, (g.explain e t).code ≠ some code) :
    ∃ found ∈ hookDiagnostics (g.postLex t lexed.tokens), d = found.clampTo t := by
  simp only [List.mem_cons, List.mem_append, not_or] at hno
  obtain ⟨hlex, hsemantic, htree, hlast⟩ := hno
  obtain ⟨found, hfound, rfl⟩ := exists_finding_of_mem_report hd
  have hcode : found.code = some code := hcode
  cases hfound with
  | lexical he => exact absurd (Option.some.inj hcode).symm hlex
  | postLex hpost => exact ⟨found, hpost, rfl⟩
  | parsing hclean he => exact absurd hcode (hexplain _)
  | analysis _ _ hok hmem => exact absurd hcode ((h.analyze _ _ _ _ hok).ne hmem htree)
  | failure => exact absurd (Option.some.inj hcode).symm hsemantic
  | postParse tree prior hend => exact absurd hcode ((h.postParse _ _ _ _).ne hend hlast)

/-- The diagnostics with a code that only the tree's checks have are findings of theirs. -/
theorem Codes.filter_report {g : Grammar κ τ ε} {onTokens onTree last : List String}
    (h : g.Codes onTokens onTree last) (t : Text) (options : LintOptions) (lexed : Lexed κ)
    {code : String} (hno : code ∉ Code.lexError :: (onTokens ++ last))
    (hexplain : ∀ e, (g.explain e t).code ≠ some code) :
    (g.report t options lexed).diagnostics.filter (·.hasCode code) =
      ((g.analysisOf (g.parseOf lexed).tree lexed.tokens options).filter
        (·.hasCode code)).map (·.clampTo t) := by
  simp only [List.mem_cons, List.mem_append, not_or] at hno
  obtain ⟨hlex, htokens, hlast⟩ := hno
  have herrors : (lexed.errors.map LexError.diagnostic).filter (·.hasCode code) = [] := by
    refine filter_hasCode_eq_nil fun d hd hcode => ?_
    obtain ⟨e, -, rfl⟩ := List.mem_map.mp hd
    exact hlex (Option.some.inj hcode).symm
  have hparse : ((g.parseOf lexed).errors.map (g.explain · t)).filter (·.hasCode code) =
      [] := by
    refine filter_hasCode_eq_nil fun d hd => ?_
    obtain ⟨e, -, rfl⟩ := List.mem_map.mp hd
    exact hexplain e
  have hearly := (h.postLex t lexed.tokens).filter_eq_nil htokens
  have hlate := (h.postParse t lexed.tokens (g.parseOf lexed).tree
    (g.priorTo t options lexed)).filter_eq_nil hlast
  have hclamp : (Diagnostic.hasCode · code) ∘ (Diagnostic.clampTo · t) =
      (Diagnostic.hasCode · code) := rfl
  have hprior : (g.priorTo t options lexed).filter (·.hasCode code) =
      (g.analysisOf (g.parseOf lexed).tree lexed.tokens options).filter
        (·.hasCode code) := by
    simp only [priorTo, List.filter_append, herrors, hearly, hparse, List.nil_append]
  dsimp only [report]
  rw [List.filter_map, hclamp, List.filter_append, hprior, hlate, List.append_nil]

/-- A diagnostic with a code that only the tree's checks have is one of their findings. -/
theorem Codes.exists_finding {g : Grammar κ τ ε} {onTokens onTree last : List String}
    (h : g.Codes onTokens onTree last) {t : Text} {options : LintOptions} {lexed : Lexed κ}
    {d : Diagnostic} (hd : d ∈ (g.report t options lexed).diagnostics) {code : String}
    (hcode : d.code = some code)
    (hno : code ∉ Code.lexError :: (onTokens ++ last))
    (hexplain : ∀ e, (g.explain e t).code ≠ some code) :
    ∃ found ∈ g.analysisOf (g.parseOf lexed).tree lexed.tokens options,
      d = found.clampTo t := by
  have hd : d ∈ (g.report t options lexed).diagnostics.filter (·.hasCode code) :=
    List.mem_filter.mpr ⟨hd, beq_iff_eq.mpr hcode⟩
  rw [h.filter_report t options lexed hno hexplain] at hd
  obtain ⟨found, hfound, rfl⟩ := List.mem_map.mp hd
  exact ⟨found, (List.mem_filter.mp hfound).1, rfl⟩

end Grammar

/-! ## Flowcharts -/

namespace Flowchart

/-- The codes of the findings on labels. -/
def labelCodes : List String :=
  [Code.labelEscapedQuote, Code.labelRawQuote, Code.labelParenInLabel]

/-- The codes of the findings on tokens. -/
def tokenCodes : List String := Code.arrowInvalid :: labelCodes

/-- The codes of the findings on the tree. -/
def treeCodes : List String := [Code.directionMissing, Code.subgraphDuplicateId]

theorem coded_tokenFindings_of_ne {t : Tok} (h : t.kind ≠ .invalidLink) (previous : Option Tok) :
    Coded labelCodes (tokenFindings previous t) := by
  unfold tokenFindings
  split
  · exact absurd ‹_› h
  · unfold quotedLabelFindings
    split
    · exact .single rfl (by decide)
    · exact .single rfl (by decide)
    · exact .nil
  · refine .append ?_ ?_
    · unfold bareQuoteFindings
      split
      · exact .single rfl (by decide)
      · exact .nil
    · split
      · unfold parenFindings
        split
        · exact .single rfl (by decide)
        · exact .nil
      · exact .nil
  · exact .nil

theorem tokenFindings_invalidLink {t : Tok} (h : t.kind = .invalidLink) (previous : Option Tok) :
    tokenFindings previous t = [linkFinding t] := by
  unfold tokenFindings
  rw [h]

theorem coded_tokenFindings (previous : Option Tok) (t : Tok) :
    Coded tokenCodes (tokenFindings previous t) := by
  by_cases h : t.kind = .invalidLink
  · rw [tokenFindings_invalidLink h]
    exact .single rfl List.mem_cons_self
  · exact (coded_tokenFindings_of_ne h previous).mono (List.subset_cons_self _ _)

theorem coded_tokenChecks (previous : Option Tok) (ts : List Tok) :
    Coded tokenCodes (tokenChecks previous ts) := by
  induction ts generalizing previous with
  | nil => exact .nil
  | cons t rest ih => exact (coded_tokenFindings previous t).append (ih _)

theorem coded_duplicateIds (seen : List (String × Nat)) (ids : List (String × Position)) :
    Coded [Code.subgraphDuplicateId] (duplicateIds seen ids) := by
  induction ids generalizing seen with
  | nil => exact .nil
  | cons entry rest ih =>
    unfold duplicateIds
    split
    · exact .cons rfl List.mem_cons_self (ih _)
    · exact ih _

theorem coded_reservedIds (reported : List Diagnostic) (previous : Option Tok) (ts : List Tok) :
    Coded [Code.nodeIdReserved] (reservedIds reported previous ts) := by
  induction ts generalizing reported previous with
  | nil => exact .nil
  | cons t rest ih =>
    unfold reservedIds
    dsimp only
    split
    · exact .cons rfl (by decide) (ih _ _)
    · exact ih _ _

/-- The parser has no error with a code of the tree's checks. -/
theorem explain_code_ne {code : String} (hcode : code ∈ treeCodes) (e : ParseError) :
    (explain e).code ≠ some code := by
  cases e
  all_goals exact fun h => absurd (Option.some.inj h ▸ hcode) (by decide)

theorem grammar_codes : grammar.Codes tokenCodes treeCodes [Code.nodeIdReserved] where
  postLex _ tokens := coded_tokenChecks none tokens
  analyze chart tokens options found h := by
    change analyze chart tokens options = .ok found at h
    unfold analyze at h
    cases hr : directionRequired options with
    | error reason =>
      rw [hr] at h
      cases h
    | ok required =>
      rw [hr] at h
      cases h
      refine .append ?_ ((coded_duplicateIds _ _).mono (by decide))
      split
      · exact .single rfl (by decide)
      · exact .nil
  postParse _ tokens _ prior := coded_reservedIds prior none tokens

end Flowchart

/-! ## Pie charts -/

namespace Pie

/-- The codes of the findings on the tree. -/
def treeCodes : List String :=
  [Code.pieValueNegative, Code.pieValueZero, Code.pieDuplicateLabel]

theorem coded_valueFindings (entry : Entry) (strict : Bool) :
    Coded treeCodes (valueFindings entry strict) := by
  unfold valueFindings
  dsimp only
  split
  · exact .single rfl (by decide)
  · split
    · exact .single rfl (by decide)
    · exact .nil

theorem coded_entryFindings (strict : Bool) (seen : List (String × Nat)) (entries : List Entry) :
    Coded treeCodes (entryFindings strict seen entries) := by
  induction entries generalizing seen with
  | nil => exact .nil
  | cons entry rest ih =>
    unfold entryFindings
    refine (coded_valueFindings entry strict).append ?_
    split
    · exact .cons rfl (by decide) (ih _)
    · exact ih _

theorem grammar_codes : grammar.Codes [Code.labelEscapedQuote] treeCodes [] where
  postLex _ tokens := by
    intro d hd
    obtain ⟨tok, -, hf⟩ := List.mem_filterMap.mp hd
    unfold escapeFinding? at hf
    split at hf
    · obtain ⟨i, -, rfl⟩ := Option.map_eq_some_iff.mp hf
      exact ⟨_, List.mem_cons_self, rfl⟩
    · cases hf
  analyze chart _ options found h := by
    cases h
    exact coded_entryFindings options.strict [] chart.entries
  postParse _ _ _ _ := .nil

end Pie

/-! ## Sequence diagrams -/

namespace Sequence

theorem grammar_codes : grammar.Codes [Code.seqArrowInvalid] [] [] where
  postLex _ tokens := by
    intro d hd
    obtain ⟨tok, -, hf⟩ := List.mem_filterMap.mp hd
    unfold arrowFinding? at hf
    split at hf
    · cases hf
      exact ⟨_, List.mem_cons_self, rfl⟩
    · cases hf
  analyze _ _ _ found h := by
    cases h
    exact .nil
  postParse _ _ _ _ := .nil

end Sequence

end DiagramLint
