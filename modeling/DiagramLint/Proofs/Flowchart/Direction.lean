-- The direction of a flowchart. On a header line with nothing but white
-- space behind the header word, the repair writes the direction right
-- there; the lexer and the parser then find it, and no other repair touches
-- the line again.
import DiagramLint.Proofs.Flowchart.Language
import DiagramLint.Proofs.Header.Below
import DiagramLint.Proofs.Linter.Answering
import DiagramLint.Proofs.Linter.FreshLint

namespace DiagramLint.Flowchart

open Heading Text

variable {g : Heading} {t x post : Text}

/-! ## The tokens of the header line -/

/-- White space within a line gives no token. -/
theorem lexStep_white {s : Reader Kind} {c : Char} {rest : Text} (hrest : s.cursor.rest = c :: rest)
    (hc : isWhiteSpace c = true) (hn : c ≠ '\n') :
    (lexStep s).tokens = [] ∧ (lexStep s).cursor = s.cursor.next := by
  by_cases hblank : Cursor.isBlankChar c = true
  · simp [lexStep, hrest, hblank, Yield.nothing]
  · have hr : c ≠ '\r' := by
      rintro rfl
      exact hblank rfl
    rw [lexStep_eq_wideToken hrest (by simpa using hblank) hn
        (contains_eq_false_of_all (by decide) hc),
      wideToken_of_not_isSign hrest hn hr (contains_eq_false_of_all (by decide) hc),
      isIdentChar_of_isWhiteSpace hc]
    exact ⟨rfl, rfl⟩

/-- A scan passes over white space within a line. -/
theorem run_white {q before : Text} (hq : ∀ c ∈ q, isWhiteSpace c = true) (hline : '\n' ∉ q)
    {s : Reader Kind} (hat : s.cursor.At t before) (hrest : s.cursor.rest = q ++ post) :
    ∃ s' : Reader Kind, s'.cursor.At t (before ++ q) ∧ s'.cursor.rest = post ∧
      s'.previous = s.previous ∧
      (Scan.run lexStep .eof s).lexed.tokens = (Scan.run lexStep .eof s').lexed.tokens := by
  induction q generalizing s before with
  | nil => exact ⟨s, by simpa using hat, hrest, rfl, rfl⟩
  | cons c q ih =>
    rw [List.mem_cons, not_or] at hline
    obtain ⟨htoks, hcursor⟩ := lexStep_white hrest (hq c (by simp)) (Ne.symm hline.1)
    have hnext := hat.next
    rw [hrest, List.cons_append, List.take_succ_cons, List.take_zero] at hnext
    have hleft : s.cursor.next.rest = q ++ post := by rw [Cursor.next_rest, hrest]; rfl
    obtain ⟨s', hat', hrest', hprev, hrun⟩ := ih (fun d hd => hq d (by simp [hd])) hline.2
      (s := s.after (lexStep s))
      (by rw [Reader.after, hcursor]; exact hnext) (by rw [Reader.after, hcursor]; exact hleft)
    refine ⟨s', by simpa using hat', hrest', ?_, ?_⟩
    · rw [hprev, Reader.after, htoks]
      rfl
    · have hlt : (lexStep s).cursor.rest.length < s.cursor.rest.length := by
        rw [hcursor, hleft, hrest]
        simp
      rw [← hrun, Scan.tokens_run_of_lt _ hlt, htoks, List.nil_append]

/-- A token that stands below the header line. -/
def Beneath (g : Heading) (t : Text) (tok : Tok) : Prop := g.line < tok.line ∧ tok.line ≤ t.lineCount

/-- Behind the header line come a token that ends it and tokens below it. -/
theorem run_ends (h : g.Continues x post t) {s : Reader Kind} (hat : s.cursor.At t (g.text ++ x))
    (hrest : s.cursor.rest = post) :
    ∃ first rest, (Scan.run lexStep .eof s).lexed.tokens = first :: rest ∧
      (first.kind = .newline ∨ first.kind = .eof) ∧ ∀ tok ∈ rest, Beneath g t tok := by
  cases post with
  | nil =>
    rcases Scan.tokens_run lexStep .eof s with ⟨-, htoks⟩ | ⟨hne, -⟩ | ⟨hne, -⟩
    · exact ⟨_, [], htoks, .inr rfl, by simp⟩
    · exact absurd hrest hne
    · exact absurd hrest hne
  | cons c b =>
    cases h.ends c rfl
    have hstep : lexStep s = lexeme .newline 1 s.cursor := by
      unfold lexStep
      rw [hrest]
      rfl
    have hlt : (lexStep s).cursor.rest.length < s.cursor.rest.length := by
      rw [hstep]
      simp [lexeme, Cursor.take, Yield.token, hrest]
    rw [Scan.tokens_run_of_lt _ hlt, hstep]
    refine ⟨_, _, rfl, .inl rfl, ?_⟩
    have hbehind := hat.skip 1
    rw [hrest, List.take_succ_cons, List.take_zero] at hbehind
    intro tok hm
    have hfound : tok.Found Kind.isSolid endsWord t (g.text ++ x ++ ['\n']) :=
      lexStep_honest.run rfl (s.after (lexeme .newline 1 s.cursor)) hbehind.beyond tok hm
    obtain ⟨s', ⟨mid, hat'⟩, hplace, -⟩ := hfound
    have hcount := h.count_eq
    have hline := hplace.trans hat'.place_eq
    have hnumber := congrArg Position.line hline
    rw [placeAfter_line, List.count_append, List.count_append, List.count_singleton_self] at hnumber
    refine ⟨?_, ?_⟩
    · change tok.line = _ at hnumber
      omega
    · have hle := placeAfter_line_le ⟨s'.rest, hat'.text_eq.symm⟩
      rw [← hline] at hle
      exact hle

/-- Right behind the header, a direction is read as one. -/
theorem lexStep_direction {s : Reader Kind} {head : Tok} (hprev : s.previous = some head)
    (hk : head.kind = .header) {d : String} (hd : d ∈ directions) {post : Text}
    (hrest : s.cursor.rest = d.toList ++ post) (hp : FollowsWord post) :
    ∃ tok, (lexStep s).tokens = [tok] ∧ tok.kind = .direction ∧ tok.image = d ∧
      (lexStep s).cursor = s.cursor.skip d.toList.length := by
  have hwords : ∀ d ∈ directions, d.toList ≠ [] ∧ d.toList.all isIdentChar = true ∧
      d ∉ headers := by decide
  obtain ⟨hne, hident, hheader⟩ := hwords d hd
  obtain ⟨hstep, hword, himage⟩ :=
    lexStep_word hrest ⟨hne, List.all_eq_true.mp hident⟩ hp
  have hkind : wordKind (.of s) d = .direction := by
    simp [wordKind, WordContext.of, hprev, hk, hheader, hd]
  refine ⟨Token.ofText .direction d.toList s.cursor.place, ?_, rfl, String.ofList_toList, ?_⟩
  · rw [hstep, word, hword]
    simp only [Cursor.take, himage, Token.ofText, String.ofList_toList, hkind]
    rfl
  · rw [hstep, word, hword]
    simp only [Cursor.take, himage, Token.ofText, String.ofList_toList, hkind]
    rfl

/-- The tokens of a chart whose header line goes on with a direction, or with nothing: line ends
and, unless the scan stalls, the header, the direction, a token that ends the line, and tokens
below it. -/
inductive HeaderLine (g : Heading) (t : Text) (dir : Option Tok) : Toks → Prop where
  | stalled {ts : Toks} (h : ∀ tok ∈ ts, tok.kind = .newline) : HeaderLine g t dir ts
  | headed {nls rest : Toks} {head first : Tok} (hn : ∀ tok ∈ nls, tok.kind = .newline)
    (hk : head.kind = .header) (hl : head.line = g.line)
    (hf : first.kind = .newline ∨ first.kind = .eof) (hr : ∀ tok ∈ rest, Beneath g t tok) :
    HeaderLine g t dir (nls ++ head :: (dir.toList ++ first :: rest))

/-- The tokens of a text with a heading come from a reader right behind the header word, unless the
scan stalls before. -/
theorem exists_behind_header (hg : g.Opens t) (hw : String.ofList g.word ∈ headers) {behind : Text}
    (ht : t = g.text ++ behind) :
    (∀ tok ∈ (tokenize t).tokens, tok.kind = .newline) ∨
      ∃ nls head s, (∀ tok ∈ nls, tok.kind = .newline) ∧ head.kind = .header ∧
        head.line = g.line ∧ s.cursor.At t g.text ∧ s.cursor.rest = behind ∧
        s.previous = some head ∧
        (tokenize t).tokens = nls ++ head :: (Scan.run lexStep .eof s).lexed.tokens := by
  obtain ⟨post, hpost, hfollows⟩ := hg
  have hsame : post = behind := by
    rw [hpost, List.append_cancel_left_eq] at ht
    exact ht
  subst hsame
  rcases scan_to_word ht lexStep_skims with hall | ⟨nls, s, hnls, hs, hat, hrest, hrun⟩
  · exact .inl hall
  · obtain ⟨head, htoks, hkind, hplace, hcursor⟩ := lexStep_header hs hrest g.word_header hfollows hw
    have hskip := hat.skip g.word.length
    rw [hrest, List.take_left, List.append_assoc, ← hcursor] at hskip
    refine .inr ⟨nls, head, s.after (lexStep s), hnls, hkind, ?_, hskip, ?_, ?_, ?_⟩
    · have hline := congrArg Position.line (hplace.trans hat.place_eq)
      rw [g.placeAfter_lead] at hline
      exact hline
    · change (lexStep s).cursor.rest = post
      rw [hcursor, Cursor.skip_rest, hrest, List.drop_left]
    · rw [Reader.after, htoks]
      rfl
    · change (Scan.run lexStep .eof (Reader.ofText t)).lexed.tokens = _
      have hpos := List.length_pos_iff.mpr g.word_header.ne_nil
      have hlt : (lexStep s).cursor.rest.length < s.cursor.rest.length := by
        rw [hcursor, Cursor.skip_rest, List.length_drop, hrest, List.length_append]
        omega
      rw [hrun, Scan.tokens_run_of_lt _ hlt, htoks]
      rfl

/-- With nothing but white space behind the header word, nothing else stands on its line. -/
theorem headerLine_bare (hw : String.ofList g.word ∈ headers) (h : g.Continues x post t)
    (hx : ∀ c ∈ x, isWhiteSpace c = true) : HeaderLine g t none (tokenize t).tokens := by
  rcases exists_behind_header h.opens hw h.text_eq with
    hall | ⟨nls, head, s, hnls, hk, hl, hat, hrest, -, htoks⟩
  · exact .stalled hall
  · obtain ⟨s', hat', hrest', -, hrun⟩ := run_white hx h.inline hat hrest
    obtain ⟨first, rest, hends, hf, hr⟩ := run_ends h hat' hrest'
    rw [htoks, hrun, hends]
    exact HeaderLine.headed hnls hk hl hf hr

/-- With a direction and white space behind the header word, the direction is read. -/
theorem headerLine_directed (hw : String.ofList g.word ∈ headers) {d : String}
    (hd : d ∈ directions) {q : Text} (hq : ∀ c ∈ q, isWhiteSpace c = true)
    (h : g.Continues (' ' :: (d.toList ++ q)) post t) :
    ∃ dir : Tok, dir.kind = .direction ∧ dir.image = d ∧ HeaderLine g t (some dir) (tokenize t).tokens := by
  rcases exists_behind_header h.opens hw h.text_eq with
    hall | ⟨nls, head, s, hnls, hk, hl, hat, hrest, hprev, htoks⟩
  · exact ⟨⟨.direction, d, 1, 1⟩, rfl, rfl, .stalled hall⟩
  · have hinline := h.inline
    simp only [List.mem_cons, List.mem_append, not_or] at hinline
    have hspace : ∀ c ∈ [' '], isWhiteSpace c = true := by
      intro c hc
      rw [List.mem_singleton.mp hc]
      decide
    obtain ⟨s', hat', hrest', hprev', hrun⟩ := run_white hspace (by decide) hat
      (show s.cursor.rest = [' '] ++ (d.toList ++ (q ++ post)) by rw [hrest]; simp)
    have hfollows : FollowsWord (q ++ post) := by
      intro c hc
      cases q with
      | nil =>
        rw [h.ends c hc]
        decide
      | cons d' q =>
        rw [← Option.some.inj hc]
        simp [endsWord, hq d' (by simp)]
    obtain ⟨dir, hdir, hkind, himage, hcursor⟩ :=
      lexStep_direction (hprev'.trans hprev) hk hd hrest' hfollows
    refine ⟨dir, hkind, himage, ?_⟩
    have hskip := hat'.skip d.toList.length
    rw [hrest', List.take_left, ← hcursor] at hskip
    have hleft : (lexStep s').cursor.rest = q ++ post := by
      rw [hcursor, Cursor.skip_rest, hrest', List.drop_left]
    obtain ⟨s'', hat'', hrest'', -, hrun'⟩ := run_white hq hinline.2.2 (s := s'.after (lexStep s'))
      hskip hleft
    obtain ⟨first, rest, hends, hf, hr⟩ := run_ends h (s := s'')
      (by simpa [List.append_assoc] using hat'') hrest''
    have hmore : (Scan.run lexStep .eof s').lexed.tokens = dir :: first :: rest := by
      have hpos : ∀ d ∈ directions, 0 < d.toList.length := by decide
      have hlt : (lexStep s').cursor.rest.length < s'.cursor.rest.length := by
        have := hpos d hd
        simp only [hleft, hrest', List.length_append]
        omega
      rw [← hends, ← hrun', Scan.tokens_run_of_lt _ hlt, hdir]
      rfl
    rw [htoks, hrun, hmore]
    exact HeaderLine.headed hnls hk hl hf hr

/-! ## The parser -/

theorem statements_separator {first : Tok} (hk : first.kind.isSeparator = true) (rest : Toks) :
    statements (first :: rest) = statements rest := by
  have hskip : skipSeparators (first :: rest) = skipSeparators rest :=
    List.dropWhile_cons_of_pos hk
  rw [statements, statements, hskip]

/-- What the parser makes of the header line: its errors point at the tokens below, and the chart
has the direction that stands on the line. -/
theorem HeaderLine.parse_keeps {dir : Option Tok} {ts : Toks} (h : HeaderLine g t dir ts)
    (hd : ∀ tok ∈ dir, tok.kind = .direction) :
    (∀ e ∈ (parse ts).errors, e.From (Beneath g t)) ∧
      ∀ chart ∈ (parse ts).tree, chart.headerLine = g.line ∧
        chart.direction = dir.map Token.image := by
  cases h with
  | stalled hall =>
    rw [parse_newlines hall]
    constructor
    · exact fun e he => by cases he
    · exact fun chart hc => by cases hc
  | @headed nls rest head first hn hk hl hf hr =>
    have hs : skipSeparators (nls ++ head :: (dir.toList ++ first :: rest)) =
        head :: (dir.toList ++ first :: rest) :=
      dropWhile_append_cons (fun t hm => isSeparator_of_newline (hn t hm)) (by rw [hk]; rfl)
    have hdir : headerDirection (dir.toList ++ first :: rest) =
        (dir.map Token.image, first :: rest) := by
      cases dir with
      | none =>
        have hne : first.kind ≠ .direction := by rcases hf with hf | hf <;> rw [hf] <;> decide
        simp [headerDirection, hne]
      | some dir => simp [headerDirection, hd dir rfl]
    have hend : endStatement (first :: rest) = ([], first :: rest) := by
      unfold endStatement kindAhead
      rcases hf with hf | hf <;> simp [hf, Kind.endsStatement, Kind.isSeparator]
    have hstatements : ∀ item ∈ statements (first :: rest),
        (∀ event ∈ item.1, event.Within (ParseError.From (Beneath g t))) ∧
          ∀ e ∈ item.2, e.From (Beneath g t) := by
      rcases hf with hf | hf
      · rw [statements_separator (isSeparator_of_newline hf)]
        exact statements_keep hr
      · have hskip : skipSeparators (first :: rest) = first :: rest :=
          List.dropWhile_cons_of_neg (by rw [hf]; decide)
        rw [statements, hskip]
        simp [hf]
    rw [parse, hs]
    simp only [hk, if_true, hdir, hend]
    constructor
    · intro e he
      rcases List.mem_append.mp he with he | he
      · exact Nesting.run_errors _ _ hstatements e he
      · obtain ⟨block, -, rfl⟩ := List.mem_map.mp he
        trivial
    · intro chart hc
      cases hc
      exact ⟨hl, rfl⟩

/-! ## Diagnostics -/

theorem Beneath.made {tok : Tok} (h : Beneath g t tok) :
    g.line < max tok.line 1 ∧ max tok.line 1 ≤ t.lineCount := by
  have hpos := lineCount_pos t
  obtain ⟨hlt, hle⟩ := h
  omega

/-- A finding about a token is made on the token's line. -/
theorem tokenFindings_line (previous : Option Tok) (tok : Tok) :
    ∀ d ∈ tokenFindings previous tok, d.line = max tok.line 1 := by
  intro d hd
  unfold tokenFindings at hd
  split at hd
  · rw [List.mem_singleton.mp hd]
    rfl
  · unfold quotedLabelFindings at hd
    split at hd
    · rw [List.mem_singleton.mp hd]
      rfl
    · rw [List.mem_singleton.mp hd]
      rfl
    · cases hd
  · rcases List.mem_append.mp hd with hd | hd
    · unfold bareQuoteFindings at hd
      split at hd
      · rw [List.mem_singleton.mp hd]
        rfl
      · cases hd
    · split at hd
      · unfold parenFindings at hd
        split at hd
        · rw [List.mem_singleton.mp hd]
          rfl
        · cases hd
      · cases hd
  · cases hd

theorem tokenChecks_sink {ts : Toks}
    (h : ∀ tok ∈ ts, tok.kind ∈ [Kind.newline, .header, .direction, .eof] ∨ Beneath g t tok)
    (previous : Option Tok) : ∀ d ∈ tokenChecks previous ts, g.Sinks t d := by
  induction ts generalizing previous with
  | nil => exact fun _ hd => by cases hd
  | cons tok rest ih =>
    intro d hd
    rcases List.mem_append.mp hd with hd | hd
    · rcases h tok List.mem_cons_self with hk | hbeneath
      · simp only [List.mem_cons, List.not_mem_nil, or_false] at hk
        rcases hk with hk | hk | hk | hk
        all_goals
          simp only [tokenFindings, hk] at hd
          cases hd
      · obtain ⟨code, hmem, hcode⟩ := coded_tokenFindings previous tok d hd
        have hbrace : ∀ code ∈ tokenCodes, code ≠ Code.stateBlockMissingBrace := by decide
        refine sinks_of_line hcode ?_ (hbrace code hmem)
        rw [tokenFindings_line previous tok d hd]
        exact hbeneath.made
    · exact ih (fun tok hm => h tok (List.mem_cons_of_mem _ hm)) _ d hd

theorem explain_sink {e : ParseError} (h : e.From (Beneath g t)) : g.Sinks t (explain e) := by
  cases e with
  | mismatchedCloser place found expected =>
    obtain ⟨tok, htok, rfl, -⟩ := h
    exact sinks_of_line rfl htok.made (by decide)
  | unclosed place expected =>
    obtain ⟨tok, htok, rfl, -⟩ := h
    exact sinks_of_line rfl htok.made (by decide)
  | missingArrow place length =>
    obtain ⟨tok, htok, -, rfl⟩ := h
    exact sinks_of_line rfl htok.made (by decide)
  | trailingStatement place =>
    obtain ⟨tok, htok, -, rfl⟩ := h
    exact sinks_of_line rfl htok.made (by decide)
  | misspelledKeyword place word suggestion =>
    obtain ⟨tok, htok, -, rfl, -⟩ := h
    exact sinks_of_line rfl htok.made (by decide)
  | blockMissingEnd place openedAt => exact sinks_of_code rfl (by decide) (by decide)
  | endWithoutBlock place => exact sinks_of_code rfl (by decide) (by decide)
  | unexpected place length found expected => exact sinks_of_code rfl (by decide) (by decide)

theorem HeaderLine.token_cases {dir : Option Tok} {ts : Toks} (h : HeaderLine g t dir ts)
    (hd : ∀ tok ∈ dir, tok.kind = .direction) :
    ∀ tok ∈ ts, tok.kind ∈ [Kind.newline, .header, .direction, .eof] ∨ Beneath g t tok := by
  intro tok hm
  cases h with
  | stalled hall => exact .inl (by simp [hall tok hm])
  | headed hn hk hl hf hr =>
    simp only [List.mem_append, List.mem_cons, Option.mem_toList] at hm
    rcases hm with hm | rfl | hm | rfl | hm
    · exact .inl (by simp [hn tok hm])
    · exact .inl (by simp [hk])
    · exact .inl (by simp [hd tok hm])
    · exact .inl (by rcases hf with hf | hf <;> simp [hf])
    · exact .inr (hr tok hm)

/-- What linting reports of a chart with nothing but a direction on its header line can be repaired
below that line, unless it is the missing direction. -/
theorem HeaderLine.report_sinks {dir : Option Tok} (h : HeaderLine g t dir (tokenize t).tokens)
    (hd : ∀ tok ∈ dir, tok.kind = .direction) (options : LintOptions) :
    ∀ d ∈ (grammar.report t options (tokenize t)).diagnostics, g.Sinks t d := by
  intro d hm
  obtain ⟨found, hfound, rfl⟩ := Grammar.exists_finding_of_mem_report hm
  refine Sinks.clampTo ?_
  cases hfound with
  | lexical he => exact sinks_of_code rfl (by decide) (by decide)
  | postLex hpost => exact tokenChecks_sink (h.token_cases hd) none found hpost
  | parsing hclean he => exact explain_sink ((h.parse_keeps hd).1 _ he)
  | analysis hclean htree hok hmem =>
    exact sinks_of_coded (grammar_codes.analyze _ _ _ _ hok) (by decide) found hmem
  | failure => exact sinks_of_code rfl (by decide) (by decide)
  | postParse tree prior hend =>
    exact sinks_of_coded (coded_reservedIds _ _ _) (by decide) found hend

/-- A missing direction is reported of a chart without one, on the header line. -/
theorem exists_direction_missing {options : LintOptions} {d : Diagnostic}
    (hd : d ∈ (grammar.report t options (tokenize t)).diagnostics)
    (hcode : d.code = some Code.directionMissing) :
    ∃ chart ∈ (parse (tokenize t).tokens).tree, chart.direction = none ∧
      d.line = t.clampLine (max chart.headerLine 1) := by
  obtain ⟨found, hfound, rfl⟩ := grammar_codes.exists_finding hd hcode (by decide)
    (explain_code_ne (by decide))
  unfold Grammar.analysisOf at hfound
  split at hfound
  · cases hfound
  · rename_i chart htree
    have hparsed : (parse (tokenize t).tokens).tree = some chart := Grammar.tree_of_parseOf htree
    split at hfound
    · rename_i findings hfindings
      change analyze chart (tokenize t).tokens options = .ok findings at hfindings
      unfold analyze at hfindings
      cases hr : directionRequired options with
      | error reason =>
        rw [hr] at hfindings
        cases hfindings
      | ok required =>
        rw [hr] at hfindings
        cases hfindings
        rcases List.mem_append.mp hfound with hfound | hfound
        · split at hfound
          · rename_i hnone
            rw [List.mem_singleton.mp hfound]
            simp only [Bool.and_eq_true, Option.isNone_iff_eq_none] at hnone
            exact ⟨chart, hparsed, hnone.2, rfl⟩
          · cases hfound
        · exact absurd hcode ((coded_duplicateIds _ _).ne hfound (by decide))
    · rw [List.mem_singleton.mp hfound] at hcode
      exact absurd (Option.some.inj hcode) (by decide)

/-! ## Passes -/

/-- The header line holds the header word alone. -/
def Bare (g : Heading) (t : Text) : Prop :=
  ∃ x post, g.Continues x post t ∧ ∀ c ∈ x, isWhiteSpace c = true

/-- The header line holds the header word and the direction that the repair adds. -/
def Directed (g : Heading) (t : Text) : Prop :=
  ∃ q post, g.Continues (' ' :: ("TD".toList ++ q)) post t ∧ ∀ c ∈ q, isWhiteSpace c = true

theorem Directed.opens (h : Directed g t) : g.Opens t := by
  obtain ⟨q, post, h, -⟩ := h
  exact h.opens

theorem Directed.headerLine (hw : String.ofList g.word ∈ headers) (h : Directed g t) :
    ∃ dir : Tok, dir.kind = .direction ∧ HeaderLine g t (some dir) (tokenize t).tokens := by
  obtain ⟨q, post, h, hq⟩ := h
  obtain ⟨dir, hk, -, hline⟩ := headerLine_directed hw (d := "TD") (by decide) hq h
  exact ⟨dir, hk, hline⟩

/-- With a direction on the header line, none is missing. -/
theorem Directed.not_missing (hw : String.ofList g.word ∈ headers) (h : Directed g t)
    (options : LintOptions) :
    ∀ d ∈ (grammar.report t options (tokenize t)).diagnostics,
      d.code ≠ some Code.directionMissing := by
  intro d hd hcode
  obtain ⟨dir, hk, hline⟩ := h.headerLine hw
  obtain ⟨chart, hchart, hnone, -⟩ := exists_direction_missing hd hcode
  have hsome := ((hline.parse_keeps (by simpa using hk)).2 chart hchart).2
  rw [hnone] at hsome
  cases hsome

variable {options : LintOptions} {level : Level} {u v : Text}

/-- A pass over a directed chart leaves it directed. -/
theorem Directed.after_pass (hw : String.ofList g.word ∈ headers) (hg : g.HeadsDiagram)
    (h : Directed g t)
    (hu : pass (Dialect.flowchart.diagnostics options) .builtin level t = .ok u) :
    Directed g u := by
  have hnone := h.not_missing hw options
  obtain ⟨dir, hk, hline⟩ := h.headerLine hw
  obtain ⟨q, post, h, hq⟩ := h
  obtain ⟨edits, hedits, rfl⟩ := pass_eq_ok_iff.mp hu
  obtain ⟨ds, hds, hselect⟩ := passEdits_eq_ok_iff.mp hedits
  obtain rfl := Except.ok.inj ((Dialect.diagnostics_flowchart t options).symm.trans hds)
  have hsinks := hline.report_sinks (by simpa using hk) options
  have hlower : ∀ e ∈ edits, g.Lower t e := by
    intro e he
    refine (h.mem_selectEdits hg hsinks hselect he).resolve_right ?_
    rintro ⟨d, hd, hcode, -⟩
    exact hnone d hd hcode
  obtain ⟨post', h'⟩ := h.splice_lower hlower
  exact ⟨q, post', h', hq⟩

theorem not_accepts_directed (hw : String.ofList g.word ∈ headers) (h : Directed g t) :
    ¬Accepts (Dialect.flowchart.diagnostics options) .builtin level Code.directionMissing t := by
  rintro ⟨ds, hds, edits, -, d, hd, hcode, -⟩
  obtain rfl := Except.ok.inj ((Dialect.diagnostics_flowchart t options).symm.trans hds)
  exact h.not_missing hw options d hd hcode

/-- A pass over a bare chart adds the direction where it accepts that repair, and else leaves the
chart bare. -/
theorem Bare.after_pass (hw : String.ofList g.word ∈ headers) (hg : g.HeadsDiagram) (h : Bare g t)
    (hu : pass (Dialect.flowchart.diagnostics options) .builtin level t = .ok u) :
    Directed g u ∨ Bare g u ∧ ¬Accepts (Dialect.flowchart.diagnostics options) .builtin level
      Code.directionMissing t := by
  obtain ⟨x, post, h, hx⟩ := h
  obtain ⟨edits, hedits, rfl⟩ := pass_eq_ok_iff.mp hu
  obtain ⟨ds, hds, hselect⟩ := passEdits_eq_ok_iff.mp hedits
  have hreport := (Dialect.diagnostics_flowchart t options).symm.trans hds
  have hline := headerLine_bare hw h hx
  have hsinks := hline.report_sinks (by simp) options
  rw [Except.ok.inj hreport] at hsinks
  obtain ⟨e, y, z, hsplit, hnew, hrange, honly⟩ := h.insert_at_end hx " TD".toList .all
  have hmissing : ∀ d ∈ ds, d.code = some Code.directionMissing → d.line = g.line := by
    intro d hd hcode
    rw [← Except.ok.inj hreport] at hd
    obtain ⟨chart, hchart, -, hplace⟩ := exists_direction_missing hd hcode
    rw [hplace, ((hline.parse_keeps (by simp)).2 chart hchart).1, Nat.max_eq_left g.line_pos,
      h.opens.clampLine_eq]
  have hothers : ∀ e' ∈ edits, e' ≠ e → g.Lower t e' := by
    intro e' he' hne
    refine (h.mem_selectEdits hg hsinks hselect he').resolve_right ?_
    rintro ⟨d, hd, hcode, p, hp, hmem⟩
    rw [honly d p (hmissing d hd hcode) hp, List.mem_singleton] at hmem
    exact hne hmem
  by_cases he : e ∈ edits
  · subst hsplit
    obtain ⟨post', h'⟩ := h.splice_first (separate_passEdits hedits) he hrange hothers
      (by rw [hnew]; decide) (by rw [hnew]; exact followsWord_append z (by decide) (by decide))
    rw [hnew] at h'
    exact .inl ⟨z, post', h', fun c hc => hx c (List.mem_append_right _ hc)⟩
  · obtain ⟨post', h'⟩ := h.splice_lower fun e' he' =>
      hothers e' he' (ne_of_mem_of_not_mem he' he)
    refine .inr ⟨⟨x, post', h', hx⟩, ?_⟩
    rintro ⟨ds', hds', edits', hselect', d, hd, hcode, c, hc, hall⟩
    obtain rfl := Except.ok.inj (hds.symm.trans hds')
    obtain rfl := Except.ok.inj (hselect.symm.trans hselect')
    have hp := candidate?_propose hc (show _ = some (Strategy.insertText " TD".toList .lineEnd .all) from rfl)
    exact he (hall e (by
      rw [honly d _ (hmissing d hd hcode) (Except.ok.inj hp)]
      exact List.mem_cons_self))

/-! ## Runs -/

theorem Directed.after_passes (hw : String.ofList g.word ∈ headers) (hg : g.HeadsDiagram)
    (h : Directed g t) {n : Nat}
    (hu : passes (Dialect.flowchart.diagnostics options) .builtin level n t = .ok u) :
    Directed g u := by
  induction n generalizing t with
  | zero =>
    cases hu
    exact h
  | succ n ih =>
    obtain ⟨v, hv, hu⟩ := bind_eq_ok_iff.mp hu
    exact ih (h.after_pass hw hg hv) hu

/-- A chart is bare until it is directed. -/
theorem Bare.after_passes (hw : String.ofList g.word ∈ headers) (hg : g.HeadsDiagram)
    (h : Bare g t) {n : Nat}
    (hu : passes (Dialect.flowchart.diagnostics options) .builtin level n t = .ok u) :
    Bare g u ∨ Directed g u := by
  induction n generalizing t with
  | zero =>
    cases hu
    exact .inl h
  | succ n ih =>
    obtain ⟨v, hv, hu⟩ := bind_eq_ok_iff.mp hu
    rcases h.after_pass hw hg hv with hdirected | ⟨hbare, -⟩
    · exact .inr (hdirected.after_passes hw hg hu)
    · exact ih hbare hu

/-- After a pass that accepted the repair, the direction stays. -/
theorem Bare.directed_after (hw : String.ofList g.word ∈ headers) (hg : g.HeadsDiagram)
    (h : Bare g t) {i j : Nat} (hij : i < j)
    (hu : passes (Dialect.flowchart.diagnostics options) .builtin level i t = .ok u)
    (haccepts : Accepts (Dialect.flowchart.diagnostics options) .builtin level
      Code.directionMissing u)
    (hv : passes (Dialect.flowchart.diagnostics options) .builtin level j t = .ok v) :
    Directed g v := by
  obtain ⟨more, rfl⟩ := Nat.exists_eq_add_of_lt hij
  rw [Nat.add_assoc, passes_add, hu] at hv
  replace hv : passes _ _ _ (more + 1) u = .ok v := hv
  obtain ⟨w, hw', hv⟩ := bind_eq_ok_iff.mp hv
  have hdirected : Directed g w := by
    rcases h.after_passes hw hg hu with hbare | hdirected
    · exact (hbare.after_pass hw hg hw').resolve_right fun hnot => hnot.2 haccepts
    · exact hdirected.after_pass hw hg hw'
  exact hdirected.after_passes hw hg hv

theorem detect?_of_detects (h : Dialect.flowchart.detects t = true) :
    Dialect.detect? Dialect.builtin t = some .flowchart :=
  List.find?_cons_of_pos h

/-- On a header line with nothing but the header word, the direction is added right behind it:
linting then finds it, and later passes add none again. -/
theorem a_missing_direction_is_added_once (options : LintOptions)
    (hdetects : Dialect.flowchart.detects t = true) (hbare : bareHeader t = true) :
    let lint := Dialect.flowchart.diagnostics options
    let accepts := Accepts lint .builtin .all Code.directionMissing
    (accepts t → ∃ u ds, pass lint .builtin .all t = .ok u ∧ lintText u options = .ok ds ∧
        ∀ d ∈ ds, d.code ≠ some Code.directionMissing) ∧
      (∃ o, fixText t options .all = .ok o ∧
        passes lint .builtin .all o.passes t = .ok o.fixed) ∧
      ∀ i j u v, passes lint .builtin .all i t = .ok u → passes lint .builtin .all j t = .ok v →
        accepts u → accepts v → i = j := by
  intro lint accepts
  have hbuiltin : Dialect.flowchart ∈ Dialect.builtin := by simp [Dialect.builtin]
  have hdetected := detect?_of_detects hdetects
  obtain ⟨g, hopens, hg, hw⟩ := Dialect.exists_heading hdetected
  obtain ⟨x, post, hcontinues⟩ := hopens.exists_continues
  have hbare : Bare g t := ⟨x, post, hcontinues, hcontinues.blank_of_bare hbare⟩
  refine ⟨?_, ?_, ?_⟩
  · intro haccepts
    obtain ⟨u, hu⟩ := Dialect.exists_pass hbuiltin options .all (Dialect.lexes_flowchart t)
    have hdirected : Directed g u :=
      (hbare.after_pass hw hg hu).resolve_right fun hnot => hnot.2 haccepts
    have hsame : Dialect.detect? Dialect.builtin u = some .flowchart := by
      rw [Dialect.detect?_congr (hdirected.opens.headerWord.trans hopens.headerWord.symm), hdetected]
    refine ⟨u, _, hu, ?_, hdirected.not_missing hw options⟩
    rw [lintText, hsame]
    exact Dialect.diagnostics_flowchart u options
  · obtain ⟨o, ho⟩ := (@Dialect.exists_fix_iff t .flowchart options .all
      hbuiltin).mpr fun _ _ u _ => Dialect.lexes_flowchart u
    refine ⟨o, ?_, (converge_runsTo ho).fixed_eq⟩
    rw [fixText, hdetected]
    exact ho
  · intro i j u v hu hv hi hj
    rcases Nat.lt_trichotomy i j with hij | rfl | hij
    · exact absurd hj (not_accepts_directed hw (hbare.directed_after hw hg hij hu hi hv))
    · rfl
    · exact absurd hi (not_accepts_directed hw (hbare.directed_after hw hg hij hv hj hu))

/-- A flowchart whose header line holds the header word alone. -/
def undirectedChart : Text := "flowchart
A --> B".toList

theorem undirectedChart_gets_a_direction_once :
    Dialect.flowchart.detects undirectedChart = true ∧ bareHeader undirectedChart = true ∧
      ∃ u ds, pass (Dialect.flowchart.diagnostics {}) .builtin .all undirectedChart = .ok u ∧
        lintText u {} = .ok ds ∧ ∀ d ∈ ds, d.code ≠ some Code.directionMissing := by
  have hdetects : Dialect.flowchart.detects undirectedChart = true := by decide +kernel
  have hbare : bareHeader undirectedChart = true := by decide +kernel
  refine ⟨hdetects, hbare, (a_missing_direction_is_added_once {} hdetects hbare).1 ?_⟩
  decide +kernel

/-- A flowchart with a comment behind its header word. -/
def annotatedChart : Text := "flowchart %% note
A --> B".toList

/-- The direction goes to the end of the header line, and with a comment there becomes part of the
comment. -/
theorem a_direction_is_added_to_a_comment :
    ¬ ∀ (t u : Text) (options : LintOptions) (ds : List Diagnostic),
      Dialect.flowchart.detects t = true →
      let lint := Dialect.flowchart.diagnostics options
      Accepts lint .builtin .all Code.directionMissing t → pass lint .builtin .all t = .ok u →
        lintText u options = .ok ds → ∀ d ∈ ds, d.code ≠ some Code.directionMissing := by
  intro h
  obtain ⟨u, hu, ds, hds, d, hd, hcode⟩ :
      ∃ u, pass (Dialect.flowchart.diagnostics {}) .builtin .all annotatedChart = .ok u ∧
        ∃ ds, lintText u {} = .ok ds ∧ ∃ d ∈ ds, d.code = some Code.directionMissing := by
    decide +kernel
  exact h annotatedChart u {} ds (by decide +kernel) (by decide +kernel) hu hds d hd hcode

end DiagramLint.Flowchart
