-- What the findings about pie charts point at. A value is reported on the line
-- of its label and in the column of its number: the parser takes both from one
-- line.
import DiagramLint.Proofs.Lexing.Faithful
import DiagramLint.Proofs.Linter.Reports
import DiagramLint.Proofs.Linter.Showing
import DiagramLint.Proofs.Pie.Misspellings

namespace DiagramLint.Pie

theorem standsIn_scan {t : Text} {l : Lexed Kind} (hl : scan t = .finished l) {tok : Tok}
    (hm : tok ∈ l.tokens) (he : tok.kind ≠ .eof) (hn : tok.kind ≠ .newline) : tok.StandsIn t :=
  lexStep_covers.standsIn hl hm he hn

/-! ## Findings -/

/-- A backslash and a quotation mark stand at the index found. -/
theorem escapedQuoteAt?_starts {x : Text} {k : Nat} (h : escapedQuoteAt? x = some k) :
    ['\\', '"'] <+: x.drop k := by
  fun_induction escapedQuoteAt? x generalizing k with
  | case1 => cases h
  | case2 rest =>
    cases h
    exact ⟨rest, rfl⟩
  | case3 c rest _ ih =>
    obtain ⟨j, hj, rfl⟩ := Option.map_eq_some_iff.mp h
    exact ih hj

/-- Every finding about slices is about the value of one, or about a repeated label. -/
theorem exists_of_mem_entryFindings {strict : Bool} {seen : List (String × Nat)}
    {entries : List Entry} {d : Diagnostic} (h : d ∈ entryFindings strict seen entries) :
    (∃ e ∈ entries, d ∈ valueFindings e strict) ∨ d.code = some Code.pieDuplicateLabel := by
  induction entries generalizing seen with
  | nil => cases h
  | cons e rest ih =>
    have hlater : ∀ seen, d ∈ entryFindings strict seen rest →
        (∃ e' ∈ e :: rest, d ∈ valueFindings e' strict) ∨
          d.code = some Code.pieDuplicateLabel := by
      intro seen h
      rcases ih h with ⟨own, hm, hd⟩ | hcode
      · exact .inl ⟨own, List.mem_cons_of_mem _ hm, hd⟩
      · exact .inr hcode
    rcases List.mem_append.mp h with h | h
    · exact .inl ⟨e, List.mem_cons_self, h⟩
    · split at h
      · rcases List.mem_cons.mp h with rfl | h
        · exact .inr rfl
        · exact hlater _ h
      · exact hlater _ h

/-- What is found about a value points at its number. -/
theorem valueFindings_show {t : Text} {l : Lexed Kind} (hl : scan t = .finished l) {e : Entry}
    {strict : Bool} {value : Tok} (hm : value ∈ l.tokens) (hstands : value.StandsIn t)
    (hline : e.place.line = value.line) {label : Tok} {between : Toks}
    (h : Valued e label between value) :
    ∀ d ∈ valueFindings e strict, (d.clampTo t).Shows t := by
  have hshows : ∀ d : Diagnostic, d.line = max value.line 1 → d.column = max value.column 1 →
      d.spanLength = max value.image.length 1 →
      (d.code = some Code.pieValueNegative ∧ e.value.isBelowZero = true ∨
        d.code = some Code.pieValueZero ∧ e.value.isZero = true) → (d.clampTo t).Shows t := by
    intro d hline hc hlength hcode
    obtain ⟨hplace, hreads⟩ := hstands.reads_image hline hc hlength
    exact .value (tokenize_eq_ok_iff.mpr hl) hm h.value_kind h.value_eq hcode hplace hreads
  have hlength : e.valueLength = max value.image.length 1 := h.length_eq
  intro d hd
  unfold valueFindings at hd
  dsimp only at hd
  rw [hline, h.column_eq] at hd
  split at hd
  · rename_i hbelow
    rw [List.mem_singleton.mp hd]
    exact hshows _ rfl rfl (by simp [hlength]) (.inl ⟨rfl, hbelow⟩)
  · split at hd
    · rename_i hzero
      rw [List.mem_singleton.mp hd]
      exact hshows _ rfl rfl (by simp [hlength]) (.inr ⟨rfl, hzero⟩)
    · cases hd

/-! ## The stages -/

section

variable {t : Text} {l : Lexed Kind} (hl : scan t = .finished l)

include hl

theorem escapeFinding_shows {tok : Tok} (hm : tok ∈ l.tokens) {d : Diagnostic}
    (h : escapeFinding? tok = some d) : (d.clampTo t).Shows t := by
  unfold escapeFinding? at h
  split at h
  · rename_i hk
    obtain ⟨i, hi, rfl⟩ := Option.map_eq_some_iff.mp h
    have hstands := standsIn_scan hl hm (by rw [hk]; decide) (by rw [hk]; decide)
    exact .escapedQuote rfl (hstands.reads rfl rfl (escapedQuoteAt?_starts hi) rfl).2
  · cases h

theorem explain_shows {e : ParseError} (h : e ∈ (parse l.tokens).errors) :
    ((explain e).clampTo t).Shows t := by
  cases e with
  | misspelledKeyword place word suggestion =>
    obtain ⟨pre, first, tok, post, hword⟩ := parse_misspelled h
    have hstands := standsIn_scan hl hword.mem (by rw [hword.kind]; decide)
      (by rw [hword.kind]; decide)
    rw [hword.place_eq, hword.word_eq]
    exact .keyword rfl rfl (hstands.reads_image rfl rfl (by simp [explain])).2
  | _ => exact Diagnostic.shows_other rfl (by decide)

theorem entryFindings_show (hclean : l.errors = []) {chart : Chart}
    (htree : (parse l.tokens).tree = some chart) (strict : Bool) :
    ∀ d ∈ entryFindings strict [] chart.entries, (d.clampTo t).Shows t := by
  intro d hd
  rcases exists_of_mem_entryFindings hd with ⟨e, he, hd⟩ | hcode
  · obtain ⟨pre, label, between, value, post, htokens, hvalued⟩ :=
      (parse_readInOrder htree).exists_of_mem he
    have hm : value ∈ l.tokens := by
      rw [htokens]
      simp
    have hk := hvalued.value_kind
    have hstands := standsIn_scan hl hm (by rw [hk]; decide) (by rw [hk]; decide)
    have htiled := lexStep_covers.run (Reader.ofText t) hl
    have hline := htiled.same_line (not_not.mpr hclean) htokens hvalued.inline
    exact valueFindings_show hl hm hstands (by rw [hvalued.place_eq, hline]; rfl) hvalued d hd
  · exact Diagnostic.shows_other hcode (by decide)

theorem grammar_allShow (options : LintOptions) : grammar.AllShow t options l where
  postLex d hd := by
    obtain ⟨tok, hm, hfinding⟩ := List.mem_filterMap.mp hd
    exact escapeFinding_shows hl hm hfinding
  errors _ _ he := explain_shows hl he
  analysis hclean _ _ htree h := by
    cases h
    exact entryFindings_show hl hclean htree options.strict
  postParse _ _ _ hd := by cases hd

end

end DiagramLint.Pie
