-- What the findings about flowcharts point at. Those of the checks and of the
-- parser are made at a token, or at a character of its image: a link or a
-- bracket is spelled as its kind says, a quotation mark or a parenthesis is
-- counted off from where the label starts, the tree has the subgraphs of the
-- tokens, and the books of the blocks keep the places of `end`.
import DiagramLint.Proofs.Flowchart.Closers
import DiagramLint.Proofs.Flowchart.Subgraphs
import DiagramLint.Proofs.Linter.Showing

namespace DiagramLint.Flowchart

open Text

/-! ## How tokens are spelled -/

/-- A link that flowcharts do not have is one of two arrows, and a closing bracket is one of the
brackets that close a shape. -/
structure Spelled (tok : Tok) : Prop where
  invalidLink : tok.kind = .invalidLink → tok.image ∈ ["->", "=>"]
  shapeClose : tok.kind = .shapeClose → tok.image ∈ shapeClosers

theorem spelled_of_ne {tok : Tok} (hi : tok.kind ≠ .invalidLink) (hc : tok.kind ≠ .shapeClose) :
    Spelled tok :=
  ⟨fun h => absurd h hi, fun h => absurd h hc⟩

theorem spelled_of_rides {tok : Tok} (h : tok.kind.rides = true) : Spelled tok := by
  refine spelled_of_ne ?_ ?_
  all_goals
    intro hk
    rw [hk] at h
    cases h

theorem spelled_lexeme {kind : Kind} (hi : kind ≠ .invalidLink) (hc : kind ≠ .shapeClose) (n : Nat)
    (s : Cursor) : ∀ tok ∈ (lexeme kind n s).tokens, Spelled tok := by
  intro tok hm
  rw [List.mem_singleton.mp hm]
  exact spelled_of_ne hi hc

theorem spelled_word (s : Reader Kind) : ∀ tok ∈ (word s).tokens, Spelled tok := by
  obtain ⟨later, htoks, htext⟩ := word_tokens s
  intro tok hm
  rw [htoks] at hm
  rcases List.mem_cons.mp hm with rfl | hm
  · rcases wordKind_eq (.of s) (String.ofList (s.cursor.rest.take (wordAt s.cursor.rest).length))
      with hk | hk | hk | hk
    all_goals
      refine spelled_of_ne ?_ ?_
      all_goals
        simp [Token.ofText, hk]
  · exact spelled_of_rides (by rw [htext tok hm]; rfl)

theorem spelled_wideToken (s : Reader Kind) (c : Char) :
    ∀ tok ∈ (wideToken s c).tokens, Spelled tok := by
  unfold wideToken
  dsimp only
  split
  · exact spelled_lexeme (by decide) (by decide) _ _
  · split
    · rename_i kind n hlink
      rcases linkAt?_kind hlink with rfl | rfl
      · exact spelled_lexeme (by decide) (by decide) _ _
      · obtain ⟨sign, hsign, rfl, hline⟩ := invalidLink_sign hlink
        intro tok hm
        rw [List.mem_singleton.mp hm]
        refine ⟨fun _ => ?_, nofun⟩
        change String.ofList (s.cursor.rest.take sign.length) ∈ _
        rwa [s.cursor.ofList_take_sign hline]
    · split
      · exact fun _ hm => by cases hm
      · split
        · intro tok hm
          rcases List.mem_cons.mp hm with rfl | hm
          · exact spelled_of_ne nofun nofun
          · exact spelled_of_rides (label_rides _ _ tok hm)
        · split
          · rename_i closer hcloser
            obtain ⟨hmem, hline⟩ := bracketAt?_eq_some hcloser
            intro tok hm
            rw [List.mem_singleton.mp hm]
            refine ⟨nofun, fun _ => ?_⟩
            change String.ofList (s.cursor.rest.take closer.length) ∈ _
            rwa [s.cursor.ofList_take_sign hline]
          · split
            · exact spelled_word s
            · exact fun _ hm => by cases hm

theorem spelled_lexStep (s : Reader Kind) : ∀ tok ∈ (lexStep s).tokens, Spelled tok := by
  unfold lexStep
  split
  · exact fun _ hm => by cases hm
  · split
    · exact fun _ hm => by cases hm
    · split
      · exact spelled_lexeme (by decide) (by decide) _ _
      · split
        · exact fun _ hm => by cases hm
        · split
          · exact spelled_lexeme (by decide) (by decide) _ _
          · split
            · exact spelled_lexeme (by decide) (by decide) _ _
            · split
              · unfold edgeLabel
                dsimp only
                split
                · exact spelled_lexeme (by decide) (by decide) _ _
                · exact fun _ hm => by cases hm
              · exact spelled_wideToken s _

theorem spelled_tokenize (t : Text) : ∀ tok ∈ (tokenize t).tokens, Spelled tok := by
  have heof : ∀ place, Spelled (Token.ofText .eof [] place) := fun _ => spelled_of_ne nofun nofun
  exact Scan.tokens_all spelled_lexStep heof (.ofText t)

theorem standsIn_tokenize {t : Text} {tok : Tok} (hm : tok ∈ (tokenize t).tokens)
    (he : tok.kind ≠ .eof) (hn : tok.kind ≠ .newline) : tok.StandsIn t := by
  obtain ⟨l, hl⟩ := scan_finishes t
  rw [tokenize, hl] at hm
  exact lexStep_covers.standsIn hl hm he hn

/-! ## Checks on tokens -/

/-- The sign stands in `x` at the index `k`, when the first character of `x` has the index `i`. -/
def Indexed (sign : Text) (i : Nat) (x : Text) (k : Nat) : Prop :=
  ∃ j, k = i + j ∧ sign <+: x.drop j

theorem Indexed.cons {sign x : Text} {i k : Nat} (c : Char) (h : Indexed sign (i + 1) x k) :
    Indexed sign i (c :: x) k := by
  obtain ⟨j, rfl, hj⟩ := h
  exact ⟨j + 1, by omega, hj⟩

/-- The quotation marks of a label stand at the indexes counted. -/
theorem quotesFrom_indexed (i : Nat) (x : Text) :
    (∀ k ∈ (quotesFrom i x).1, Indexed ['\\', '"'] i x k) ∧
      ∀ k ∈ (quotesFrom i x).2, Indexed ['"'] i x k := by
  fun_induction quotesFrom i x with
  | case1 => simp
  | case2 i rest ih =>
    refine ⟨?_, fun k hk => ((ih.2 k hk).cons '"').cons '\\'⟩
    rintro k ⟨⟩
    exact ⟨0, rfl, rest, rfl⟩
  | case3 i c rest _ escaped bare hrest hquote ih =>
    rw [hrest] at ih
    refine ⟨fun k hk => (ih.1 k hk).cons c, ?_⟩
    rintro k ⟨⟩
    exact ⟨0, rfl, rest, by rw [hquote.1]; rfl⟩
  | case4 i c rest _ escaped bare hrest _ ih =>
    rw [hrest] at ih
    exact ⟨fun k hk => (ih.1 k hk).cons c, fun k hk => (ih.2 k hk).cons c⟩

/-- The first character that satisfies `p` stands at the index found. -/
theorem exists_of_findIdx? {p : Char → Bool} {x : Text} {k : Nat} (h : x.findIdx? p = some k) :
    ∃ c, p c = true ∧ [c] <+: x.drop k := by
  obtain ⟨hlt, hc, -⟩ := List.findIdx?_eq_some_iff_getElem.mp h
  refine ⟨x[k], hc, x.drop (k + 1), ?_⟩
  rw [List.drop_eq_getElem_cons hlt]
  rfl

section

variable {t : Text} {tok : Tok}

theorem linkFinding_shows (h : tok.StandsIn t) (himage : tok.image ∈ ["->", "=>"]) :
    ((linkFinding tok).clampTo t).Shows t :=
  .link rfl himage (h.reads_image rfl rfl (by simp [linkFinding, Token.width])).2

theorem quotedLabelFindings_show (h : tok.StandsIn t) :
    ∀ d ∈ quotedLabelFindings tok, (d.clampTo t).Shows t := by
  have hquotes := quotesFrom_indexed 1 (tok.image.toList.drop 1)
  intro d hd
  unfold quotedLabelFindings at hd
  split at hd
  · rename_i i bare hfound
    rw [hfound] at hquotes
    obtain ⟨j, rfl, hj⟩ := hquotes.1 i rfl
    rw [List.mem_singleton.mp hd]
    rw [List.drop_drop] at hj
    exact .escapedQuote rfl (h.reads rfl rfl hj rfl).2
  · rename_i i hfound
    rw [hfound] at hquotes
    obtain ⟨j, rfl, hj⟩ := hquotes.2 i rfl
    rw [List.mem_singleton.mp hd]
    rw [List.drop_drop] at hj
    exact .rawQuote rfl (h.reads rfl rfl hj rfl).2
  · cases hd

theorem bareQuoteFindings_show (h : tok.StandsIn t) :
    ∀ d ∈ bareQuoteFindings tok, (d.clampTo t).Shows t := by
  intro d hd
  unfold bareQuoteFindings at hd
  split at hd
  · rename_i i hfound
    obtain ⟨c, hc, hi⟩ := exists_of_findIdx? hfound
    rw [eq_of_beq hc] at hi
    rw [List.mem_singleton.mp hd]
    exact .rawQuote rfl (h.reads rfl rfl hi rfl).2
  · cases hd

theorem parenFindings_show (h : tok.StandsIn t) :
    ∀ d ∈ parenFindings tok, (d.clampTo t).Shows t := by
  intro d hd
  unfold parenFindings at hd
  split at hd
  · rename_i i hfound
    obtain ⟨c, hc, hi⟩ := exists_of_findIdx? hfound
    simp only [Bool.or_eq_true, beq_iff_eq] at hc
    rw [List.mem_singleton.mp hd]
    exact .parenthesis rfl hc (h.reads rfl rfl hi rfl).2
  · cases hd

theorem tokenFindings_show (hm : tok ∈ (tokenize t).tokens) (previous : Option Tok) :
    ∀ d ∈ tokenFindings previous tok, (d.clampTo t).Shows t := by
  have hstands := standsIn_tokenize hm
  intro d hd
  unfold tokenFindings at hd
  split at hd
  · rename_i hk
    rw [List.mem_singleton.mp hd]
    exact linkFinding_shows (hstands (by rw [hk]; decide) (by rw [hk]; decide))
      ((spelled_tokenize t tok hm).invalidLink hk)
  · rename_i hk
    exact quotedLabelFindings_show (hstands (by rw [hk]; decide) (by rw [hk]; decide)) d hd
  · rename_i hk
    have hlabel := hstands (by rw [hk]; decide) (by rw [hk]; decide)
    rcases List.mem_append.mp hd with hd | hd
    · exact bareQuoteFindings_show hlabel d hd
    · split at hd
      · exact parenFindings_show hlabel d hd
      · cases hd
  · cases hd

end

/-- Every finding of the checks on tokens is one about a token. -/
theorem exists_of_mem_tokenChecks {previous : Option Tok} {ts : Toks} {d : Diagnostic}
    (h : d ∈ tokenChecks previous ts) : ∃ tok ∈ ts, ∃ previous, d ∈ tokenFindings previous tok := by
  induction ts generalizing previous with
  | nil => cases h
  | cons tok rest ih =>
    rcases List.mem_append.mp h with h | h
    · exact ⟨tok, List.mem_cons_self, previous, h⟩
    · obtain ⟨tok', hm, hfinding⟩ := ih h
      exact ⟨tok', List.mem_cons_of_mem _ hm, hfinding⟩

/-- Every finding about the reserved word is one about a token `end`. -/
theorem exists_of_mem_reservedIds {reported : List Diagnostic} {previous : Option Tok} {ts : Toks}
    {d : Diagnostic} (h : d ∈ reservedIds reported previous ts) :
    ∃ tok ∈ ts, tok.kind = .keyword ∧ tok.image = "end" ∧ d = reservedFinding tok := by
  fun_induction reservedIds reported previous ts with
  | case1 => cases h
  | case2 reported previous tok rest inside hend ih =>
    simp only [Bool.and_eq_true, beq_iff_eq] at hend
    rcases List.mem_cons.mp h with rfl | h
    · exact ⟨tok, List.mem_cons_self, hend.1.1.1, hend.1.1.2, rfl⟩
    · obtain ⟨tok', hm, hfinding⟩ := ih h
      exact ⟨tok', List.mem_cons_of_mem _ hm, hfinding⟩
  | case3 reported previous tok rest inside hend ih =>
    obtain ⟨tok', hm, hfinding⟩ := ih h
    exact ⟨tok', List.mem_cons_of_mem _ hm, hfinding⟩

/-! ## Blocks -/

/-- The tree of a text and the errors about its ends keep the books of some of its tokens, unless
there is neither. -/
theorem tokenize_keepsBooks (t : Text) :
    (parse (tokenize t).tokens).tree = none ∧
        (parse (tokenize t).tokens).errors.filterMap ParseError.stray? = [] ∨
      ∃ rest, rest <:+ (tokenize t).tokens ∧
        KeepsBooks (tokenize t).tokens (blockSyntax.marks false rest) := by
  obtain ⟨gap, htokens, hgap⟩ := skipSeparators_eq (tokenize t).tokens
  cases hskip : skipSeparators (tokenize t).tokens with
  | nil => exact .inl (by rw [parse, hskip]; exact ⟨rfl, rfl⟩)
  | cons header rest =>
    rw [hskip] at htokens
    by_cases hk : header.kind = .header
    · refine .inr ⟨rest, ⟨gap ++ [header], by rw [htokens]; simp⟩, ?_⟩
      exact parse_keepsBooks (terminated_tokenize t) (tidy_tokenize t) htokens hgap hk
    · refine .inl ?_
      rw [parse, hskip]
      dsimp only
      rw [if_neg hk]
      exact ⟨rfl, rfl⟩

/-- An `end` that closes nothing is reported where it stands. -/
theorem exists_stray {t : Text} {place : Position}
    (h : .endWithoutBlock place ∈ (parse (tokenize t).tokens).errors) :
    ∃ tok ∈ (tokenize t).tokens, tok.kind = .keyword ∧ tok.image = "end" ∧ place = tok.place := by
  have hstray : place ∈ (parse (tokenize t).tokens).errors.filterMap ParseError.stray? :=
    List.mem_filterMap.mpr ⟨_, h, rfl⟩
  rcases tokenize_keepsBooks t with ⟨-, hnone⟩ | ⟨rest, hrest, hbooks⟩
  · rw [hnone] at hstray
    cases hstray
  · rw [hbooks.strays] at hstray
    obtain ⟨tok, hm, starts, more, hmark⟩ :=
      BlockSyntax.exists_markAt (mem_of_mem_strays hstray)
    obtain ⟨hcloses, hplace⟩ := BlockSyntax.markAt_closes hmark
    simp only [blockSyntax, Bool.and_eq_true, beq_iff_eq] at hcloses
    exact ⟨tok, hrest.subset hm, hcloses.2.1, hcloses.2.2, hplace⟩

/-- A subgraph of the tree has the place of the word that opens it. -/
theorem exists_subgraph {t : Text} {chart : Chart} {id : String} {place : Position}
    (htree : (parse (tokenize t).tokens).tree = some chart)
    (h : (id, place) ∈ subgraphsIn chart.statements) :
    ∃ tok ∈ (tokenize t).tokens, tok.kind = .keyword ∧ tok.image = "subgraph" ∧
      place = tok.place := by
  rw [subgraphsIn_parse (terminated_tokenize t) (tidy_tokenize t) htree] at h
  obtain ⟨s, hs, hnamed⟩ := List.mem_filterMap.mp h
  obtain ⟨own, -, heq⟩ := Option.map_eq_some_iff.mp hnamed
  cases heq
  exact exists_of_mem_openings hs

/-- A repeated id is reported at its subgraph, as long as the word that opens it. -/
theorem exists_of_mem_duplicateIds {seen : List (String × Nat)} {ids : List (String × Position)}
    {d : Diagnostic} (h : d ∈ duplicateIds seen ids) :
    ∃ id place, (id, place) ∈ ids ∧ d.code = some Code.subgraphDuplicateId ∧
      d.line = max place.line 1 ∧ d.column = max place.column 1 ∧
      d.spanLength = "subgraph".length := by
  fun_induction duplicateIds seen ids with
  | case1 => cases h
  | case2 seen id place rest line hseen ih =>
    rcases List.mem_cons.mp h with rfl | h
    · exact ⟨id, place, List.mem_cons_self, rfl, rfl, rfl, rfl⟩
    · obtain ⟨own, ownPlace, hm, hd⟩ := ih h
      exact ⟨own, ownPlace, List.mem_cons_of_mem _ hm, hd⟩
  | case3 seen id place rest hseen ih =>
    obtain ⟨own, ownPlace, hm, hd⟩ := ih h
    exact ⟨own, ownPlace, List.mem_cons_of_mem _ hm, hd⟩

/-! ## The stages -/

theorem explain_shows {t : Text} {e : ParseError} (h : e ∈ (parse (tokenize t).tokens).errors) :
    ((explain e).clampTo t).Shows t := by
  cases e with
  | mismatchedCloser place found expected =>
    obtain ⟨pre, id, rest, opener, label, closer, post, htokens, -, hshape⟩ := parse_mismatched h
    have hm : closer ∈ (tokenize t).tokens := by
      rw [htokens, hshape.tokens]
      simp
    have hk := hshape.closer_kind
    have hstands := standsIn_tokenize hm (by rw [hk]; decide) (by rw [hk]; decide)
    rw [hshape.place_eq, hshape.found_eq]
    exact .closer rfl rfl ((spelled_tokenize t closer hm).shapeClose hk)
      (hstands.reads_image rfl rfl (by simp [explain])).2
  | misspelledKeyword place word suggestion =>
    obtain ⟨pre, first, tok, post, hword⟩ := parse_misspelled h
    have hstands := standsIn_tokenize hword.mem (by rw [hword.kind]; decide)
      (by rw [hword.kind]; decide)
    rw [hword.place_eq, hword.word_eq]
    exact .keyword rfl rfl (hstands.reads_image rfl rfl (by simp [explain])).2
  | endWithoutBlock place =>
    obtain ⟨tok, hm, hk, himage, rfl⟩ := exists_stray h
    have hstands := standsIn_tokenize hm (by rw [hk]; decide) (by rw [hk]; decide)
    refine .strayEnd (.inl rfl) ?_
    rw [← himage]
    exact (hstands.reads_image rfl rfl (by rw [himage]; rfl)).2
  | _ => exact Diagnostic.shows_other rfl (by decide)

theorem analyze_shows {t : Text} {options : LintOptions} {chart : Chart} {found : List Diagnostic}
    (htree : (parse (tokenize t).tokens).tree = some chart)
    (h : analyze chart (tokenize t).tokens options = .ok found) :
    ∀ d ∈ found, (d.clampTo t).Shows t := by
  unfold analyze at h
  cases hrequired : directionRequired options with
  | error reason =>
    rw [hrequired] at h
    cases h
  | ok required =>
    rw [hrequired] at h
    cases h
    intro d hd
    rcases List.mem_append.mp hd with hd | hd
    · split at hd
      · rw [List.mem_singleton.mp hd]
        exact Diagnostic.shows_other rfl (by decide)
      · cases hd
    · obtain ⟨id, place, hid, hcode, hline, hcolumn, hlength⟩ := exists_of_mem_duplicateIds hd
      obtain ⟨tok, hm, hk, himage, rfl⟩ := exists_subgraph htree hid
      have hstands := standsIn_tokenize hm (by rw [hk]; decide) (by rw [hk]; decide)
      refine .duplicate hcode ?_
      rw [← himage]
      exact (hstands.reads_image hline hcolumn (by rw [hlength, himage]; rfl)).2

theorem grammar_allShow (t : Text) (options : LintOptions) :
    grammar.AllShow t options (tokenize t) where
  postLex d hd := by
    obtain ⟨tok, hm, previous, hfinding⟩ := exists_of_mem_tokenChecks hd
    exact tokenFindings_show hm previous d hfinding
  errors _ _ he := explain_shows he
  analysis _ _ _ htree h := analyze_shows htree h
  postParse tree prior d hd := by
    obtain ⟨tok, hm, hk, himage, rfl⟩ := exists_of_mem_reservedIds hd
    have hstands := standsIn_tokenize hm (by rw [hk]; decide) (by rw [hk]; decide)
    refine .strayEnd (.inr rfl) ?_
    rw [← himage]
    exact (hstands.reads_image rfl rfl (by rw [himage]; rfl)).2

end DiagramLint.Flowchart
