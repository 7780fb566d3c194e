-- The subgraphs of a flowchart. The words that open and close them stand at
-- the start of a statement, the parser reads a statement at each of these
-- places, and so its errors and its tree keep the books of the tokens.
import DiagramLint.Proofs.Flowchart.Charts
import DiagramLint.Proofs.Flowchart.Parser
import DiagramLint.Proofs.Flowchart.Tiles
import DiagramLint.Proofs.Lexing.Faithful
import DiagramLint.Proofs.Parsing.Blocks

namespace DiagramLint.Flowchart

/-! ## Marks and outlines -/

/-- The keyword `subgraph` opens a block and the keyword `end` closes one, if a line end or a
semicolon stands before it; `end` can also be a node. -/
def blockSyntax : BlockSyntax Kind Statement where
  separates := Kind.isSeparator
  opens t := t.kind == .keyword && t.image == "subgraph"
  closes starts t := starts && (t.kind == .keyword && t.image == "end")
  reads t rest := (statement t rest).value.bind BlockEvent.placed?

mutual

/-- A statement with everything in it, from the outside in. -/
def Statement.outline : (around : List BlockName) → Statement → Outline Statement
  | around, .subgraph _ place body =>
    (around, .block ⟨"subgraph", place⟩) :: outlineAll (⟨"subgraph", place⟩ :: around) body
  | around, .edges chain => [(around, .statement (.edges chain))]
  | around, .direction line value => [(around, .statement (.direction line value))]
  | around, .style line keyword => [(around, .statement (.style line keyword))]

/-- Statements in order, each with everything in it. -/
def outlineAll : (around : List BlockName) → List Statement → Outline Statement
  | _, [] => []
  | around, s :: later => s.outline around ++ outlineAll around later

end

theorem outlineAll_append (around : List BlockName) (xs ys : List Statement) :
    outlineAll around (xs ++ ys) = outlineAll around xs ++ outlineAll around ys := by
  induction xs with
  | nil => rfl
  | cons s xs ih => rw [List.cons_append, outlineAll, outlineAll, ih, List.append_assoc]

theorem outlineAll_singleton (around : List BlockName) (s : Statement) :
    outlineAll around [s] = s.outline around := by
  rw [outlineAll, outlineAll, List.append_nil]

/-- Where an `end` closes nothing, if the error is about that. -/
def ParseError.stray? : ParseError → Option Position
  | .endWithoutBlock place => some place
  | _ => none

/-- Where the end of a subgraph is missing and the line it was opened on, if the error is about
that. -/
def ParseError.missingEnd? : ParseError → Option (Position × Nat)
  | .blockMissingEnd place openedAt => some (place, openedAt)
  | _ => none

/-- Subgraphs as the tree holds them. -/
def blockTree : BlockTree OpenSubgraph Statement ParseError where
  wrap := wrapSubgraph
  name s := ⟨"subgraph", s.place⟩
  stray := ParseError.stray?
  outline := outlineAll
  outline_nil _ := rfl
  outline_append := outlineAll_append
  outline_wrap around s body := by
    rw [outlineAll_singleton]
    rfl

theorem ParseError.InStatement.stray? {e : ParseError} (h : e.InStatement) : e.stray? = none := by
  cases e <;> first | rfl | cases h

theorem ParseError.InStatement.missingEnd? {e : ParseError} (h : e.InStatement) :
    e.missingEnd? = none := by
  cases e <;> first | rfl | cases h

/-! ## Statements -/

theorem statement_readsAs (t : Tok) (ts : Toks) :
    blockTree.ReadsAs blockSyntax t ts (statement t ts).value where
  opened ho := by
    obtain ⟨hk, hi⟩ : t.kind = .keyword ∧ t.image = "subgraph" := by simpa [blockSyntax] using ho
    simp only [statement, hk, keywordStatement, hi]
    exact ⟨_, rfl, rfl⟩
  closed _ hc := by
    obtain ⟨hk, hi⟩ : t.kind = .keyword ∧ t.image = "end" := by simpa [blockSyntax] using hc
    simp only [statement, hk, keywordStatement, hi]
    exact ⟨_, rfl, rfl⟩
  plain ho hc := by
    simp only [blockSyntax, Bool.true_and] at ho hc
    intro event he
    unfold statement keywordStatement at he
    split at he
    · rename_i hk
      split at he
      · rename_i hi
        simp [hk, hi] at ho
      · rename_i hi
        simp [hk, hi] at hc
      · split at he
        · split at he
          · cases he
            exact ⟨fun _ => rfl, rfl⟩
          · cases he
        · cases he
      · cases he
        exact ⟨fun _ => rfl, rfl⟩
    · split at he
      · cases he
      · obtain ⟨c, -, rfl⟩ := Option.map_eq_some_iff.mp he
        exact ⟨fun _ => rfl, rfl⟩
    · cases he
  reads := rfl

theorem markAt_end {starts : Bool} {t : Tok} (h : t.kind.endsStatement = true) (ts : Toks) :
    blockSyntax.markAt starts t ts = none := by
  have hk : t.kind ≠ .keyword ∧ t.kind ≠ .ident := by
    constructor <;> (intro hk; rw [hk] at h; cases h)
  have hv : (statement t ts).value = none := by
    unfold statement
    split
    · exact absurd ‹_› hk.1
    · exact absurd ‹_› hk.2
    · rfl
  simp [BlockSyntax.markAt, blockSyntax, hk.1, hv]

theorem marks_gap {gap : Toks} (hg : ∀ t ∈ gap, t.kind.isSeparator = true) {starts : Bool}
    {ts : Toks} (h : blockSyntax.Tidy starts (gap ++ ts)) :
    blockSyntax.marks starts (gap ++ ts) = blockSyntax.marks (starts || !gap.isEmpty) ts ∧
      blockSyntax.Tidy (starts || !gap.isEmpty) ts := by
  induction gap generalizing starts with
  | nil => simpa using h
  | cons t gap ih =>
    have ht : t.kind.isSeparator = true := hg t List.mem_cons_self
    have hsep : blockSyntax.separates t.kind = true := ht
    obtain ⟨-, hrest⟩ := h
    rw [hsep] at hrest
    have hih := ih (fun t hm => hg t (List.mem_cons_of_mem _ hm)) hrest
    rw [List.cons_append, BlockSyntax.marks, markAt_end (endsStatement_of_separator ht), hsep]
    simpa using hih

theorem separates_of_inline (k : Kind) (h : k.endsStatement = false) :
    blockSyntax.separates k = false :=
  (Bool.or_eq_false_iff.mp h).1

/-- The statements of a chart are read where its tokens are marked. -/
theorem marks_statements {ts : Toks} (hterm : Terminated .eof ts) {starts : Bool}
    (htidy : blockSyntax.Tidy starts ts)
    (hstart : starts = true ∨ (kindAhead ts).endsStatement = true) :
    blockSyntax.marks starts ts = blockTree.marks (statements ts) := by
  fun_induction statements ts generalizing starts with
  | case1 ts hs =>
    exact absurd hs (hterm.dropWhile (p := Kind.isSeparator) rfl).ne_nil
  | case2 ts t rest hs hk =>
    obtain ⟨gap, hts, hgap⟩ := skipSeparators_eq ts
    rw [hs] at hts
    subst hts
    obtain rfl : rest = [] := hterm.of_append.eq_nil hk
    rw [(marks_gap hgap htidy).1, BlockSyntax.marks, markAt_end (by rw [hk]; rfl)]
    rfl
  | case3 ts t rest hs hk ih =>
    have hends := endsStatement_of_ahead hs hk
    obtain ⟨gap, hts, hgap⟩ := skipSeparators_eq ts
    rw [hs] at hts
    subst hts
    -- a separator comes first, or the statement starts where the tokens do
    have hstarts : (starts || !gap.isEmpty) = true := by
      cases gap with
      | nil =>
        rcases hstart with rfl | hstart
        · rfl
        · rw [List.nil_append, kindAhead, hends] at hstart
          cases hstart
      | cons => simp
    obtain ⟨hmarks, htidy⟩ := marks_gap hgap htidy
    rw [hstarts] at hmarks htidy
    have htakes := (statement_takes t rest).rest
    have hrest := htakes.terminated rfl (hterm.of_append.tail hk)
    obtain ⟨hstatement, hleft⟩ :=
      BlockSyntax.marks_statement separates_of_inline hends htakes htidy
    rw [BlockTree.marks_cons, (statement_readsAs t rest).bind_mark, hmarks, hstatement,
      ih hrest hleft (.inr (statement_stops t rest))]

/-! ## Tokens -/

theorem tidy_of_ne_keyword {starts : Bool} {ts : Toks} (h : ∀ t ∈ ts, t.kind ≠ .keyword) :
    blockSyntax.Tidy starts ts :=
  BlockSyntax.tidy_of_forall fun t hm => ⟨by simp [blockSyntax, h t hm], rfl⟩

theorem tidy_lexeme {starts : Bool} {kind : Kind} (hk : kind ≠ .keyword) (length : Nat)
    (s : Cursor) : blockSyntax.Tidy starts (lexeme kind length s).tokens :=
  tidy_of_ne_keyword fun t hm => by rwa [List.mem_singleton.mp hm]

theorem trailingText_ne_keyword (s : Cursor) : ∀ t ∈ (trailingText s).1, t.kind ≠ .keyword := by
  intro t hm
  unfold trailingText at hm
  dsimp only at hm
  split at hm
  · cases hm
  · rw [List.mem_singleton.mp hm]
    nofun

theorem label_ne_keyword (opener : String) (s : Cursor) :
    ∀ t ∈ (label opener s).tokens, t.kind ≠ .keyword := by
  intro t hm
  unfold label at hm
  split at hm
  · split at hm
    · cases hm
    · rw [List.mem_singleton.mp hm]
      nofun
  · dsimp only at hm
    split at hm
    · cases hm
    · rw [List.mem_singleton.mp hm]
      nofun

/-- Inside a statement a word is a keyword only if it is `end`. -/
theorem eq_end_of_wordKind {ctx : WordContext} (hs : ctx.statementStart = false) {w : String}
    (h : wordKind ctx w = .keyword) : w = "end" := by
  simp only [wordKind, hs, Bool.and_false, Bool.false_and, Bool.false_eq_true, if_false,
    Bool.or_false, beq_iff_eq] at h
  split at h
  · cases h
  · split at h
    · assumption
    · cases h

theorem tidy_word (s : Reader Kind) :
    blockSyntax.Tidy (s.follows true Kind.isSeparator) (word s).tokens := by
  unfold word
  generalize s.cursor.take (wordAt s.cursor.rest).length = taken
  obtain ⟨image, after⟩ := taken
  dsimp only
  generalize htok : Token.ofText (wordKind (.of s) (String.ofList image)) image s.cursor.place = tok
  have hfirst : s.follows true Kind.isSeparator = false →
      blockSyntax.opens tok = false ∧ blockSyntax.closes false tok = false := by
    intro hstart
    refine ⟨?_, rfl⟩
    rw [← htok, Bool.eq_false_iff]
    intro hopens
    obtain ⟨hk, hi⟩ : wordKind (.of s) (String.ofList image) = .keyword ∧
        String.ofList image = "subgraph" := by simpa [blockSyntax, Token.ofText] using hopens
    have hend := eq_end_of_wordKind hstart hk
    rw [hi] at hend
    exact absurd hend (by decide)
  split
  · exact ⟨hfirst, tidy_of_ne_keyword (trailingText_ne_keyword after)⟩
  · exact ⟨hfirst, trivial⟩

theorem tidy_wideToken (s : Reader Kind) (c : Char) :
    blockSyntax.Tidy (s.follows true Kind.isSeparator) (wideToken s c).tokens := by
  unfold wideToken
  dsimp only
  split
  · exact tidy_lexeme (by decide) _ _
  · split
    · rename_i kind n hlink
      refine tidy_lexeme ?_ _ _
      rcases linkAt?_kind hlink with rfl | rfl <;> decide
    · split
      · trivial
      · split
        · refine tidy_of_ne_keyword ?_
          intro t hm
          rcases List.mem_cons.mp hm with rfl | hm
          · nofun
          · exact label_ne_keyword _ _ t hm
        · split
          · exact tidy_lexeme (by decide) _ _
          · split
            · exact tidy_word s
            · trivial

theorem tidy_lexStep (s : Reader Kind) :
    blockSyntax.Tidy (s.follows true Kind.isSeparator) (lexStep s).tokens := by
  unfold lexStep
  split
  · trivial
  · split
    · trivial
    · split
      · exact tidy_lexeme (by decide) _ _
      · split
        · trivial
        · split
          · exact tidy_lexeme (by decide) _ _
          · split
            · exact tidy_lexeme (by decide) _ _
            · split
              · unfold edgeLabel
                dsimp only
                split
                · exact tidy_lexeme (by decide) _ _
                · trivial
              · exact tidy_wideToken s _

/-- A text never opens a subgraph inside a statement. -/
theorem tidy_tokenize (t : Text) : blockSyntax.Tidy true (tokenize t).tokens :=
  BlockSyntax.tidy_run tidy_lexStep (fun _ _ => tidy_of_ne_keyword (by simp [Token.ofText]))
    (.ofText t)

theorem terminated_tokenize (t : Text) : Terminated .eof (tokenize t).tokens :=
  lexStep_covers.terminated (scan_eq_finished t)

/-! ## Charts -/

theorem filterMap_inStatement {α : Type} {f : ParseError → Option α}
    (hf : ∀ e : ParseError, e.InStatement → f e = none) {errors : List ParseError}
    (h : ∀ e ∈ errors, e.InStatement) : errors.filterMap f = [] :=
  List.filterMap_eq_nil_iff.mpr fun e he => hf e (h e he)

theorem statements_fit (ts : Toks) : ∀ item ∈ statements ts,
    (∀ event ∈ item.1, blockTree.Fits event) ∧ ∀ e ∈ item.2, e.stray? = none := by
  intro item hm
  obtain ⟨t, rest, -, rfl⟩ := mem_statements hm
  exact ⟨(statement_readsAs t rest).fits, fun e he => ((statement_takes t rest).errors e he).stray?⟩

theorem statements_miss_no_end (ts : Toks) : ∀ item ∈ statements ts,
    (∀ event ∈ item.1, event.Within (·.missingEnd? = none)) ∧
      ∀ e ∈ item.2, e.missingEnd? = none := by
  intro item hm
  obtain ⟨t, rest, -, rfl⟩ := mem_statements hm
  exact ⟨statement_event (fun _ => rfl) t rest,
    fun e he => ((statement_takes t rest).errors e he).missingEnd?⟩

/-- The header's line: it is skipped, and nothing on it is marked. -/
theorem marks_header {rest : Toks} (hterm : Terminated .eof rest)
    (htidy : blockSyntax.Tidy false rest) :
    blockSyntax.marks false rest =
        blockTree.marks (statements (endStatement (headerDirection rest).2).2) ∧
      ∀ e ∈ (endStatement (headerDirection rest).2).1, e.InStatement := by
  have hA := admits_leftOf rest
  obtain ⟨herrors, hleft⟩ :=
    endStatement_leaves hA (headerDirection_leaves hA (leftOf_self rest))
  obtain ⟨hmarks, htidy⟩ := BlockSyntax.marks_leftOf separates_of_inline hleft htidy
  refine ⟨?_, herrors⟩
  rw [hmarks]
  exact marks_statements (hleft.terminated rfl hterm) htidy (.inr (endsStatement_endStatement _))

/-- The errors about ends and the tree of a chart keep the books of its marks. -/
structure KeepsBooks (ts : Toks) (marks : List (Mark Statement)) : Prop where
  /-- Each `end` that closes nothing is reported, where it stands. -/
  strays : (parse ts).errors.filterMap ParseError.stray? = (books [] marks).strays
  /-- Each subgraph left open is reported where the text ends, with the line it was opened on. -/
  missingEnds : ∃ eof, ts.getLast? = some eof ∧ eof.kind = .eof ∧
    (parse ts).errors.filterMap ParseError.missingEnd? =
      (books [] marks).leftOpen.map fun block => (eof.place, block.place.line)
  /-- The tree has an entry for each opening and each statement, in their order, under the
  subgraphs open there. -/
  tree : ∃ chart, (parse ts).tree = some chart ∧
    outlineAll [] chart.statements = (books [] marks).outline ∧
    (outlineAll [] chart.statements).map Prod.snd = marks.filterMap Mark.entry?

/-- Nothing on the header's line is marked: the first statement starts behind it. -/
theorem parse_keepsBooks {ts gap rest : Toks} {header : Tok} (hterm : Terminated .eof ts)
    (htidy : blockSyntax.Tidy true ts) (hts : ts = gap ++ header :: rest)
    (hgap : ∀ x ∈ gap, x.kind.isSeparator = true) (hh : header.kind = .header) :
    KeepsBooks ts (blockSyntax.marks false rest) := by
  have hskip : skipSeparators ts = header :: rest := by
    rw [hts]
    exact skipSeparators_append hgap (by rw [hh]; rfl) rest
  obtain ⟨_, eof, hlast, heof, -⟩ := id hterm
  have hlast : ts.getLast? = some eof := by rw [hlast, List.getLast?_concat]
  have hend : endPlace ts = eof.place := by rw [endPlace, hlast]; rfl
  rw [hts] at hterm htidy
  have hrest : blockSyntax.Tidy (blockSyntax.separates header.kind) rest :=
    (BlockSyntax.tidy_append.mp htidy).2.2
  rw [hh] at hrest
  obtain ⟨hmarks, hheader⟩ := marks_header (hterm.of_append.tail (by simp [hh])) hrest
  rw [hmarks]
  have hparse := parse_of_header hskip hh
  rw [hend] at hparse
  dsimp only at hparse
  generalize endStatement (headerDirection rest).2 = behind at hheader hparse ⊢
  obtain ⟨headerErrors, body⟩ := behind
  have hfit := statements_fit body
  have hrun := Nesting.run_errors wrapSubgraph {} (statements_miss_no_end body)
  generalize hr : Nesting.run wrapSubgraph {} (statements body) = result at hparse hrun
  obtain ⟨nesting, errors⟩ := result
  have hbooks := BlockTree.books_run (T := blockTree) hfit hr
  refine ⟨?_, ⟨eof, hlast, heof, ?_⟩, _, congrArg Parsed.tree hparse, ?_, ?_⟩
  · rw [hparse, hbooks, List.filterMap_append, List.filterMap_append, List.filterMap_map,
      filterMap_inStatement (fun _ => ParseError.InStatement.stray?) hheader]
    simp [Function.comp_def, ParseError.stray?, blockTree]
  · rw [hparse, hbooks, List.filterMap_append, List.filterMap_append, List.filterMap_map,
      filterMap_inStatement (fun _ => ParseError.InStatement.missingEnd?) hheader,
      List.filterMap_eq_nil_iff.mpr hrun]
    simp [Function.comp_def, ParseError.missingEnd?, blockTree, BlockTree.names]
  · rw [hbooks]
    rfl
  · rw [← books_entries [], hbooks]
    rfl

end DiagramLint.Flowchart
