-- The blocks of a sequence diagram. Keywords stand at the start of a line,
-- the parser reads a statement at each of these places, and so its errors
-- and its tree keep the books of the tokens.
import DiagramLint.Proofs.Lexing.Faithful
import DiagramLint.Proofs.Parsing.Blocks
import DiagramLint.Proofs.Sequence.Diagrams
import DiagramLint.Proofs.Sequence.Parser
import DiagramLint.Proofs.Sequence.Tiles

namespace DiagramLint.Sequence

/-! ## Marks and outlines -/

/-- The keywords of blocks open one, and every keyword `end` closes one. -/
def blockSyntax : BlockSyntax Kind Statement where
  separates := (· == .newline)
  opens t := t.kind == .keyword && blockKeywords.contains t.image
  closes _ t := t.kind == .keyword && t.image == "end"
  reads t rest := (statement t rest).value.bind BlockEvent.placed?

mutual

/-- A statement with everything in it, from the outside in. -/
def Statement.outline : (around : List BlockName) → Statement → Outline Statement
  | around, .block head body =>
    (around, .block ⟨head.keyword, head.place⟩) ::
      outlineAll (⟨head.keyword, head.place⟩ :: around) body
  | around, .participant line keyword name =>
    [(around, .statement (.participant line keyword name))]
  | around, .message message => [(around, .statement (.message message))]
  | around, .note line => [(around, .statement (.note line))]
  | around, .activation line active target =>
    [(around, .statement (.activation line active target))]
  | around, .directive line keyword => [(around, .statement (.directive line keyword))]

/-- Statements in order, each with everything in it. -/
def outlineAll : (around : List BlockName) → List Statement → Outline Statement
  | _, [] => []
  | around, s :: later => s.outline around ++ outlineAll around later

end

theorem outlineAll_append (around : List BlockName) (xs ys : List Statement) :
    outlineAll around (xs ++ ys) = outlineAll around xs ++ outlineAll around ys := by
  induction xs with
  | nil => rfl
  | cons s xs ih => rw [List.cons_append, outlineAll, outlineAll, ih, List.append_assoc]

theorem outlineAll_singleton (around : List BlockName) (s : Statement) :
    outlineAll around [s] = s.outline around := by
  rw [outlineAll, outlineAll, List.append_nil]

/-- Where an `end` closes nothing, if the error is about that. -/
def ParseError.stray? : ParseError → Option Position
  | .endWithoutBlock place => some place
  | _ => none

/-- Where the end of a block is missing, its keyword and the line it was opened on, if the error is
about that. -/
def ParseError.missingEnd? : ParseError → Option (Position × String × Nat)
  | .blockMissingEnd place keyword openedAt => some (place, keyword, openedAt)
  | _ => none

/-- Blocks as the tree holds them. -/
def blockTree : BlockTree BlockHead Statement ParseError where
  wrap := .block
  name head := ⟨head.keyword, head.place⟩
  stray := ParseError.stray?
  outline := outlineAll
  outline_nil _ := rfl
  outline_append := outlineAll_append
  outline_wrap around head body := by
    rw [outlineAll_singleton]
    rfl

/-- The error is not about a block. -/
def ParseError.InStatement : ParseError → Prop
  | .blockMissingEnd _ _ _ | .endWithoutBlock _ | .branchOutsideBlock _ _ _ => False
  | _ => True

theorem ParseError.InStatement.stray? {e : ParseError} (h : e.InStatement) : e.stray? = none := by
  cases e <;> first | rfl | cases h

theorem ParseError.InStatement.missingEnd? {e : ParseError} (h : e.InStatement) :
    e.missingEnd? = none := by
  cases e <;> first | rfl | cases h

/-! ## Statements -/

/-- A statement takes no token that ends a line, and reports nothing about a block. -/
theorem statement_takes (t : Tok) (ts : Toks) :
    (statement t ts).Leaves (LeftOf Kind.endsLine ts) ParseError.InStatement :=
  statement_leaves (shrinks_leftOf ts) (fun _ _ _ _ _ => trivial) (fun _ _ _ _ => trivial)
    (leftOf_self ts) (fun _ _ _ _ => trivial) fun _ _ => trivial

theorem declaration_plain (t : Tok) (ts : Toks) :
    ∀ s ∈ (declaration t ts).value, blockTree.Fits (.placed s) := by
  intro s hs
  unfold declaration at hs
  split at hs
  · split at hs
    · cases hs
      exact fun _ => rfl
    · cases hs
  · split at hs
    · cases hs
      exact fun _ => rfl
    · cases hs
  · split at hs
    · split at hs
      · cases hs
        exact fun _ => rfl
      · cases hs
    · cases hs
  · split at hs
    · split at hs
      · cases hs
        exact fun _ => rfl
      · cases hs
    · cases hs
  · split at hs
    · cases hs
      exact fun _ => rfl
    · cases hs
  · cases hs
    exact fun _ => rfl

theorem branch_fits (t : Tok) (parent : String) : blockTree.Fits (branch t parent) := by
  refine ⟨rfl, ?_⟩
  intro head changed hchange
  dsimp only at hchange
  split at hchange
  · cases hchange
    rfl
  · cases hchange

theorem statement_readsAs (t : Tok) (ts : Toks) :
    blockTree.ReadsAs blockSyntax t ts (statement t ts).value where
  opened ho := by
    obtain ⟨hk, hi⟩ : t.kind = .keyword ∧ blockKeywords.contains t.image = true := by
      simpa [blockSyntax] using ho
    simp only [statement, hk, endLine_value, keywordStatement, hi]
    exact ⟨_, rfl, rfl⟩
  closed _ hc := by
    obtain ⟨hk, hi⟩ : t.kind = .keyword ∧ t.image = "end" := by simpa [blockSyntax] using hc
    simp only [statement, hk, endLine_value, keywordStatement, hi]
    exact ⟨_, rfl, rfl⟩
  plain ho hc := by
    simp only [blockSyntax] at ho hc
    intro event he
    unfold statement at he
    split at he
    · cases he
    · rename_i hk
      rw [endLine_value] at he
      unfold keywordStatement at he
      split at he
      · rename_i hi
        rw [hk, hi] at ho
        cases ho
      · split at he
        · rename_i hi
          simp [hk, hi] at hc
        · split at he
          · cases he
            exact ⟨branch_fits t _, rfl⟩
          · obtain ⟨s, hs, rfl⟩ := Option.map_eq_some_iff.mp he
            exact ⟨declaration_plain t ts s hs, rfl⟩
    · rw [endLine_value] at he
      obtain ⟨m, -, rfl⟩ := Option.map_eq_some_iff.mp he
      exact ⟨fun _ => rfl, rfl⟩
    · rw [endLine_value] at he
      cases he
  reads := rfl

theorem markAt_end {starts : Bool} {t : Tok} (h : t.kind.endsLine = true) (ts : Toks) :
    blockSyntax.markAt starts t ts = none := by
  have hk : t.kind ≠ .keyword ∧ t.kind ≠ .ident := by
    constructor <;> (intro hk; rw [hk] at h; cases h)
  have hv : (statement t ts).value = none := by
    unfold statement
    split
    · rfl
    · exact absurd ‹_› hk.1
    · exact absurd ‹_› hk.2
    · rw [endLine_value]
      rfl
  simp [BlockSyntax.markAt, blockSyntax, hk.1, hv]

theorem separates_of_inline (k : Kind) (h : k.endsLine = false) :
    blockSyntax.separates k = false :=
  (Bool.or_eq_false_iff.mp h).1

/-- The statements of a diagram are read where its tokens are marked. -/
theorem marks_statements {ts : Toks} (hterm : Terminated .eof ts) {starts : Bool}
    (htidy : blockSyntax.Tidy starts ts)
    (hstart : starts = true ∨ (kindAhead ts).endsLine = true) :
    blockSyntax.marks starts ts = blockTree.marks (statements ts).1 := by
  fun_induction statements ts generalizing starts with
  | case1 => rfl
  | case2 t rest hk =>
    obtain rfl : rest = [] := hterm.eq_nil hk
    rw [BlockSyntax.marks, markAt_end (by rw [hk]; rfl)]
    rfl
  | case3 t rest hk later left hs ih =>
    rw [hs] at ih
    have htakes := (statement_takes t rest).rest
    have hrest := htakes.terminated rfl (hterm.tail hk)
    rw [BlockTree.marks_cons, (statement_readsAs t rest).bind_mark]
    by_cases hnewline : t.kind = .newline
    · -- a line end marks nothing, and a statement starts behind it
      have hsep : blockSyntax.separates t.kind = true := by rw [hnewline]; rfl
      have hend : t.kind.endsLine = true := by rw [hnewline]; rfl
      have hsame : (statement t rest).rest = rest := by rw [statement, hnewline]; rfl
      obtain ⟨-, htidy⟩ := htidy
      rw [hsep] at htidy
      rw [hsame] at ih hrest
      rw [BlockSyntax.marks, markAt_end hend, markAt_end hend, hsep, ih hrest htidy (.inl rfl)]
    · have hinline : t.kind.endsLine = false := by simp [Kind.endsLine, hnewline, hk]
      have hstarts : starts = true := by
        rcases hstart with hstart | hstart
        · exact hstart
        · rw [kindAhead, hinline] at hstart
          cases hstart
      have hends : (kindAhead (statement t rest).rest).endsLine = true := by
        rcases statement_rest t rest with ⟨hk, -⟩ | hends
        · exact absurd hk hnewline
        · exact hends
      obtain ⟨hmarks, hleft⟩ :=
        BlockSyntax.marks_statement separates_of_inline hinline htakes htidy
      rw [hmarks, hstarts, ih hrest hleft (.inr hends)]

theorem mem_statements {ts : Toks} {item : Option Event × List ParseError}
    (h : item ∈ (statements ts).1) :
    ∃ t rest, item = ((statement t rest).value, (statement t rest).errors) := by
  fun_induction statements ts with
  | case1 => cases h
  | case2 => cases h
  | case3 t rest hk later left hs ih =>
    rw [hs] at ih
    rcases List.mem_cons.mp h with rfl | h
    · exact ⟨t, rest, rfl⟩
    · exact ih h

/-- The statements are read up to the end of the text. -/
theorem statements_left {ts : Toks} (hterm : Terminated .eof ts) :
    (statements ts).2 = ts.getLast?.toList := by
  fun_induction statements ts with
  | case1 => rfl
  | case2 t rest hk =>
    obtain rfl : rest = [] := hterm.eq_nil hk
    rfl
  | case3 t rest hk later left hs ih =>
    rw [hs] at ih
    have htakes := (statement_takes t rest).rest
    have hrest := htakes.terminated rfl (hterm.tail hk)
    obtain ⟨body, last, hlast, -⟩ := id hrest
    obtain ⟨taken, htaken, -⟩ := htakes
    have hall : t :: rest = (t :: taken ++ body) ++ [last] := by
      rw [hlast] at htaken
      rw [htaken, List.cons_append, List.cons_append, List.append_assoc]
    rw [ih hrest, hlast, hall, List.getLast?_concat, List.getLast?_concat]

/-! ## Tokens -/

theorem tidy_of_ne_keyword {starts : Bool} {ts : Toks} (h : ∀ t ∈ ts, t.kind ≠ .keyword) :
    blockSyntax.Tidy starts ts :=
  BlockSyntax.tidy_of_forall fun t hm => by simp [blockSyntax, h t hm]

theorem tidy_lexeme {starts : Bool} {kind : Kind} (hk : kind ≠ .keyword) (length : Nat)
    (s : Cursor) : blockSyntax.Tidy starts (lexeme kind length s).tokens :=
  tidy_of_ne_keyword fun t hm => by rwa [List.mem_singleton.mp hm]

theorem trailingText_ne_keyword (s : Cursor) : ∀ t ∈ (trailingText s).1, t.kind ≠ .keyword := by
  intro t hm
  unfold trailingText at hm
  dsimp only at hm
  split at hm
  · cases hm
  · rw [List.mem_singleton.mp hm]
    nofun

theorem wordKind_inside {s : Reader Kind} (hs : s.follows true (· == .newline) = false)
    (w : String) : wordKind s w ≠ .keyword := by
  simp only [wordKind, hs, Bool.and_false, Bool.false_and, Bool.false_eq_true, if_false]
  decide

theorem tidy_word (s : Reader Kind) :
    blockSyntax.Tidy (s.follows true (· == .newline)) (word s).tokens := by
  unfold word
  generalize s.cursor.takeWhile isIdentChar = taken
  obtain ⟨image, after⟩ := taken
  dsimp only
  generalize htok : Token.ofText (wordKind s (String.ofList image)) image s.cursor.place = tok
  have hfirst : s.follows true (· == .newline) = false →
      blockSyntax.opens tok = false ∧ blockSyntax.closes false tok = false := by
    intro hstart
    have hk : tok.kind ≠ .keyword := by
      rw [← htok]
      exact wordKind_inside hstart (String.ofList image)
    simp [blockSyntax, hk]
  split
  · exact ⟨hfirst, tidy_of_ne_keyword (trailingText_ne_keyword after)⟩
  · exact ⟨hfirst, trivial⟩

theorem tidy_lexStep (s : Reader Kind) :
    blockSyntax.Tidy (s.follows true (· == .newline)) (lexStep s).tokens := by
  unfold lexStep
  split
  · trivial
  · split
    · trivial
    · split
      · exact tidy_lexeme (by decide) _ _
      · split
        · trivial
        · split
          · refine tidy_of_ne_keyword ?_
            intro t hm
            rcases List.mem_cons.mp hm with rfl | hm
            · intro hk
              cases hk
            · exact trailingText_ne_keyword _ t hm
          · split
            · exact tidy_lexeme (by decide) _ _
            · split
              · exact tidy_word s
              · split
                · rename_i kind n harrow
                  refine tidy_lexeme ?_ _ _
                  rintro rfl
                  cases (arrowAt?_length harrow).1
                · trivial

/-- Keywords stand at the start of a line only. -/
theorem tidy_tokenize (t : Text) : blockSyntax.Tidy true (tokenize t).tokens :=
  BlockSyntax.tidy_run tidy_lexStep (fun _ _ => tidy_of_ne_keyword (by simp [Token.ofText]))
    (.ofText t)

theorem terminated_tokenize (t : Text) : Terminated .eof (tokenize t).tokens :=
  lexStep_covers.terminated (scan_eq_finished t)

/-! ## Diagrams -/

/-- The errors about ends and the tree of a diagram keep the books of its marks. -/
structure KeepsBooks (ts : Toks) (marks : List (Mark Statement)) : Prop where
  /-- Each `end` that closes nothing is reported, where it stands. -/
  strays : (parse ts).errors.filterMap ParseError.stray? = (books [] marks).strays
  /-- Each block left open is reported where the text ends, with its keyword and the line it was
  opened on. -/
  missingEnds : ∃ eof, ts.getLast? = some eof ∧ eof.kind = .eof ∧
    (parse ts).errors.filterMap ParseError.missingEnd? =
      (books [] marks).leftOpen.map fun block => (eof.place, block.keyword, block.place.line)
  /-- The tree has an entry for each opening and each statement, in their order, under the blocks
  open there. -/
  tree : ∃ diagram, (parse ts).tree = some diagram ∧
    outlineAll [] diagram.statements = (books [] marks).outline ∧
    (outlineAll [] diagram.statements).map Prod.snd = marks.filterMap Mark.entry?

theorem statements_fit (ts : Toks) : ∀ item ∈ (statements ts).1,
    (∀ event ∈ item.1, blockTree.Fits event) ∧ ∀ e ∈ item.2, e.stray? = none := by
  intro item hm
  obtain ⟨t, rest, rfl⟩ := mem_statements hm
  exact ⟨(statement_readsAs t rest).fits, fun e he => ((statement_takes t rest).errors e he).stray?⟩

theorem statements_miss_no_end (ts : Toks) : ∀ item ∈ (statements ts).1,
    (∀ event ∈ item.1, event.Within (·.missingEnd? = none)) ∧
      ∀ e ∈ item.2, e.missingEnd? = none := by
  intro item hm
  obtain ⟨t, rest, rfl⟩ := mem_statements hm
  exact ⟨statement_event (fun _ => rfl) (fun _ _ _ _ => rfl) t rest,
    fun e he => ((statement_takes t rest).errors e he).missingEnd?⟩

/-- A statement can start on the header's line. -/
theorem parse_keepsBooks {ts gap rest : Toks} {header : Tok} (hterm : Terminated .eof ts)
    (htidy : blockSyntax.Tidy true ts) (hts : ts = gap ++ header :: rest)
    (hgap : ∀ x ∈ gap, x.kind = .newline) (hh : header.kind = .header) :
    KeepsBooks ts (blockSyntax.marks true rest) := by
  have hskip : ts.dropWhile (·.kind == .newline) = header :: rest := by
    rw [hts]
    exact dropWhile_append_cons (fun t hm => beq_iff_eq.mpr (hgap t hm)) (by rw [hh]; rfl)
  rw [hts] at hterm htidy
  have hrest : blockSyntax.Tidy (blockSyntax.separates header.kind) rest :=
    (BlockSyntax.tidy_append.mp htidy).2.2
  rw [hh] at hrest
  have hbehind := hterm.of_append.tail (by simp [hh])
  rw [marks_statements hbehind hrest.start (.inl rfl)]
  have hparse := parse_of_header hskip hh
  rw [statements_left hbehind] at hparse
  obtain ⟨body, eof, hbody, heof, -⟩ := hbehind
  have hlast : ts.getLast? = some eof := by
    rw [hts, hbody, ← List.cons_append, ← List.append_assoc, List.getLast?_concat]
  rw [hbody, List.getLast?_concat, ← hbody] at hparse
  have hfit := statements_fit rest
  have hrun := Nesting.run_errors Statement.block {} (statements_miss_no_end rest)
  generalize hr : Nesting.run Statement.block {} (statements rest).1 = result at hparse hrun
  obtain ⟨nesting, errors⟩ := result
  have hbooks := BlockTree.books_run (T := blockTree) hfit hr
  refine ⟨?_, ⟨eof, hlast, heof, ?_⟩, _, congrArg Parsed.tree hparse, ?_, ?_⟩
  · rw [hparse, hbooks, List.filterMap_append, Option.toList, unclosed, List.filterMap_map]
    simp [Function.comp_def, ParseError.stray?, blockTree]
  · rw [hparse, hbooks, List.filterMap_append, Option.toList, unclosed, List.filterMap_map,
      List.filterMap_eq_nil_iff.mpr hrun]
    simp [Function.comp_def, ParseError.missingEnd?, blockTree, BlockTree.names]
  · rw [hbooks]
    rfl
  · rw [← books_entries [], hbooks]
    rfl

end DiagramLint.Sequence
