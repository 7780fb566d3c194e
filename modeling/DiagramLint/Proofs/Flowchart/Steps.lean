-- What one step of the flowchart lexer can take from a text without an error:
-- a blank, a comment, a sign of its own, a link, an opening bracket with its
-- label, a closing bracket or a word. A word is taken up to where no word
-- goes on, and only blanks stand between two neighbouring tokens.
import DiagramLint.Flowchart.Parser
import DiagramLint.Proofs.Flowchart.Tiles
import DiagramLint.Proofs.Lexing.Gaps
import DiagramLint.Proofs.Spelling

namespace DiagramLint.Flowchart

/-- What an opening bracket takes along: its label, if there is one. -/
def openShape (opener : String) (s : Cursor) : Yield Kind :=
  { label opener (s.skip opener.length) with
    tokens := Token.ofText .shapeOpen (s.rest.take opener.length) s.place ::
      (label opener (s.skip opener.length)).tokens }

/-- The label of an edge is read up to the next bar. -/
theorem edgeLabel_of_line {s : Cursor} {inner more : Text} (hbar : '|' ∉ inner)
    (hline : s.restOfLine = '|' :: (inner ++ '|' :: more)) :
    edgeLabel s = lexeme .edgeLabel (inner.length + 2) s := by
  have hinner : (inner ++ '|' :: more).takeWhile (· != '|') = inner := by
    rw [List.takeWhile_append_of_pos]
    · simp
    · intro c hc
      rw [bne_iff_ne]
      rintro rfl
      exact hbar hc
  unfold edgeLabel
  rw [hline]
  simp only [List.drop_one, List.tail_cons]
  rw [hinner, if_pos (by simp)]

/-- Without an error, a bar stands behind the label. -/
theorem edgeLabel_closes {s : Cursor} {rest : Text} (hrest : s.rest = '|' :: rest)
    (he : (edgeLabel s).errors = []) :
    ∃ inner more, '|' ∉ inner ∧ s.restOfLine = '|' :: (inner ++ '|' :: more) := by
  obtain ⟨line, hline⟩ := Cursor.exists_restOfLine hrest (by decide) (by decide)
  unfold edgeLabel at he
  rw [hline] at he
  simp only [List.drop_one, List.tail_cons] at he
  split at he
  · rename_i hlt
    have hsplit := List.takeWhile_append_dropWhile (p := (· != '|')) (l := line)
    cases hbehind : line.dropWhile (· != '|') with
    | nil =>
      rw [hbehind, List.append_nil] at hsplit
      rw [hsplit, List.length_cons] at hlt
      exact absurd hlt (Nat.lt_irrefl _)
    | cons c more =>
      have hc : c = '|' := by
        simpa using head?_dropWhile_stops (· != '|') line c (by rw [hbehind]; rfl)
      refine ⟨line.takeWhile (· != '|'), more, ?_, ?_⟩
      · intro hm
        simpa using List.mem_takeWhile_imp hm
      · rw [hc] at hbehind
        rw [← hbehind, hsplit]
        exact hline
  · cases he

/-- What a step takes from a text that goes on with `c` and `rest`. -/
inductive Took (s : Reader Kind) (c : Char) (rest : Text) : Yield Kind → Prop where
  | blank (hb : Cursor.isBlankChar c = true) : Took s c rest (.nothing s.cursor.next)
  | newline (hn : c = '\n') : Took s c rest (lexeme .newline 1 s.cursor)
  | comment (hc : c = '%' ∧ rest.head? = some '%') : Took s c rest (.nothing s.cursor.takeLine.2)
  | semi (hc : c = ';') : Took s c rest (lexeme .semi 1 s.cursor)
  | amp (hc : c = '&') : Took s c rest (lexeme .amp 1 s.cursor)
  | edgeLabel (hc : c = '|') {inner more : Text} (hbar : '|' ∉ inner)
    (hline : s.cursor.restOfLine = '|' :: (inner ++ '|' :: more)) :
    Took s c rest (lexeme .edgeLabel (inner.length + 2) s.cursor)
  | classRef (hc : s.cursor.restOfLine.startsWith [':', ':', ':'] = true) :
    Took s c rest (lexeme .classRef
      (3 + ((s.cursor.rest.drop 3).takeWhile fun c => isIdentChar c || c == '-').length) s.cursor)
  | link (kind : Kind) (n : Nat) (h : linkAt? s.cursor.restOfLine = some (kind, n)) :
    Took s c rest (lexeme kind n s.cursor)
  | shapeOpen (opener : String) (h : bracketAt? shapeOpeners s.cursor.restOfLine = some opener)
    (hg : c = '>' → followsIdent s = true) : Took s c rest (openShape opener s.cursor)
  | shapeClose (closer : String) (h : bracketAt? shapeClosers s.cursor.restOfLine = some closer) :
    Took s c rest (lexeme .shapeClose closer.length s.cursor)
  | word (hc : isIdentChar c = true) : Took s c rest (word s)

theorem took_wideToken {s : Reader Kind} {c : Char} (rest : Text)
    (he : (wideToken s c).errors = []) : Took s c rest (wideToken s c) := by
  unfold wideToken at he ⊢
  dsimp only at he ⊢
  split
  · rename_i hclass
    exact .classRef hclass
  · rename_i hclass
    rw [if_neg hclass] at he
    split
    · rename_i kind n hlink
      exact .link kind n hlink
    · rename_i hlink
      rw [hlink] at he
      dsimp only at he
      split
      · rename_i hgreater
        rw [if_pos hgreater] at he
        cases he
      · rename_i hgreater
        rw [if_neg hgreater] at he
        split
        · rename_i opener hopener
          exact .shapeOpen opener hopener (by simpa using hgreater)
        · rename_i hopener
          rw [hopener] at he
          dsimp only at he
          split
          · rename_i closer hcloser
            exact .shapeClose closer hcloser
          · rename_i hcloser
            rw [hcloser] at he
            dsimp only at he
            split
            · rename_i hc
              exact .word hc
            · rename_i hc
              rw [if_neg hc] at he
              cases he

/-- Without an error, a step takes one of these. -/
theorem lexStep_took {s : Reader Kind} {c : Char} {rest : Text} (hrest : s.cursor.rest = c :: rest)
    (he : (lexStep s).errors = []) : Took s c rest (lexStep s) := by
  unfold lexStep at he ⊢
  rw [hrest] at he ⊢
  dsimp only at he ⊢
  split
  · exact .blank ‹_›
  · rename_i hb
    rw [if_neg hb] at he
    split
    · exact .newline ‹_›
    · rename_i hn
      rw [if_neg hn] at he
      split
      · exact .comment ‹_›
      · rename_i hcomment
        rw [if_neg hcomment] at he
        split
        · exact .semi ‹_›
        · rename_i hsemi
          rw [if_neg hsemi] at he
          split
          · exact .amp ‹_›
          · rename_i hamp
            rw [if_neg hamp] at he
            split
            · rename_i hbar
              rw [if_pos hbar] at he
              obtain ⟨inner, more, hmem, hline⟩ := edgeLabel_closes (hbar ▸ hrest) he
              rw [edgeLabel_of_line hmem hline]
              exact .edgeLabel hbar hmem hline
            · rename_i hbar
              rw [if_neg hbar] at he
              exact took_wideToken rest he

/-! ## Words -/

theorem isWordChar_of_mem_wordAt {t : Text} {c : Char} (h : c ∈ wordAt t) :
    isWordChar c = true := by
  induction t with
  | nil => cases h
  | cons d rest ih =>
    unfold wordAt at h
    split at h
    · rename_i hd
      rcases List.mem_cons.mp h with rfl | h
      · simp only [Bool.or_eq_true, Bool.and_eq_true, beq_iff_eq] at hd
        rcases hd with hd | ⟨rfl, -⟩
        · exact isWordChar_of_isIdentChar hd
        · decide
      · exact ih h
    · cases h

/-- Behind a word stands a character that no word has, or a dash that ends the word. -/
theorem wordAt_stops (t : Text) :
    ∃ rest, t = wordAt t ++ rest ∧ ∀ c ∈ rest.head?, isWordChar c = true → c = '-' := by
  induction t with
  | nil => exact ⟨[], rfl, by simp⟩
  | cons d rest ih =>
    unfold wordAt
    split
    · obtain ⟨more, hmore, hstop⟩ := ih
      exact ⟨more, by rw [List.cons_append, ← hmore], hstop⟩
    · rename_i hd
      refine ⟨d :: rest, rfl, ?_⟩
      intro c hc hword
      cases hc
      simp only [Bool.or_eq_true, not_or, Bool.not_eq_true] at hd
      have hident := hd.1
      simp only [isIdentChar, Bool.or_eq_false_iff] at hident
      simpa [isWordChar, hident] using hword

theorem word_tokens (s : Reader Kind) :
    ∃ later, (word s).tokens = Token.ofText
      (wordKind (.of s) (String.ofList (s.cursor.rest.take (wordAt s.cursor.rest).length)))
      (s.cursor.rest.take (wordAt s.cursor.rest).length) s.cursor.place :: later ∧
      ∀ tok ∈ later, tok.kind = .text := by
  unfold word
  dsimp only [Cursor.take]
  split
  · refine ⟨_, rfl, ?_⟩
    intro tok hm
    unfold trailingText at hm
    dsimp only at hm
    split at hm
    · cases hm
    · rw [List.mem_singleton.mp hm]
      rfl
  · exact ⟨[], rfl, by simp⟩

/-! ## The tokens of a step -/

/-- Labels and free text come along with the token before them. -/
def Kind.rides : Kind → Bool
  | label | quotedLabel | text => true
  | _ => false

theorem wordKind_eq (ctx : WordContext) (w : String) :
    wordKind ctx w = .header ∨ wordKind ctx w = .direction ∨ wordKind ctx w = .keyword ∨
      wordKind ctx w = .ident := by
  unfold wordKind
  split
  · exact .inl rfl
  · split
    · exact .inr (.inl rfl)
    · split
      · exact .inr (.inr (.inl rfl))
      · exact .inr (.inr (.inr rfl))

theorem label_rides (opener : String) (s : Cursor) :
    ∀ tok ∈ (label opener s).tokens, tok.kind.rides = true := by
  intro tok h
  unfold label at h
  split at h
  · split at h
    · cases h
    · rw [List.mem_singleton.mp h]
      rfl
  · dsimp only at h
    split at h
    · cases h
    · rw [List.mem_singleton.mp h]
      rfl

theorem Took.rides {s : Reader Kind} {c : Char} {rest : Text} {y : Yield Kind}
    (h : Took s c rest y) {tok : Tok} {later : Toks} (htoks : y.tokens = tok :: later) :
    tok.kind.rides = false ∧ ∀ l ∈ later, l.kind.rides = true := by
  cases h with
  | blank | comment => cases htoks
  | newline | semi | amp | edgeLabel | classRef | shapeClose =>
    cases htoks
    exact ⟨rfl, by simp⟩
  | link kind n hlink =>
    cases htoks
    rcases linkAt?_kind hlink with rfl | rfl
    all_goals exact ⟨rfl, by simp⟩
  | shapeOpen opener =>
    cases htoks
    exact ⟨rfl, label_rides opener _⟩
  | word hc =>
    obtain ⟨more, hword, htext⟩ := word_tokens s
    rw [hword] at htoks
    cases htoks
    refine ⟨?_, fun l hl => by rw [htext l hl]; rfl⟩
    dsimp only [Token.ofText]
    rcases wordKind_eq (.of s) _ with hk | hk | hk | hk
    all_goals
      rw [hk]
      rfl

/-- A token that comes along with no other is the first of its step. -/
theorem lexStep_head {s : Reader Kind} (hr : s.cursor.rest ≠ []) (he : (lexStep s).errors = [])
    {tok : Tok} (h : tok ∈ (lexStep s).tokens) (hk : tok.kind.rides = false) :
    ∃ later, (lexStep s).tokens = tok :: later := by
  obtain ⟨c, rest, hrest⟩ := List.exists_cons_of_ne_nil hr
  cases htoks : (lexStep s).tokens with
  | nil =>
    rw [htoks] at h
    cases h
  | cons first later =>
    have hrides := (lexStep_took hrest he).rides htoks
    rw [htoks] at h
    rcases List.mem_cons.mp h with rfl | h
    · exact ⟨later, rfl⟩
    · rw [hrides.2 tok h] at hk
      cases hk

/-- A step that yields a node takes a word, and nothing else. -/
theorem lexStep_node {s : Reader Kind} (hr : s.cursor.rest ≠ []) (he : (lexStep s).errors = [])
    {tok : Tok} (h : tok ∈ (lexStep s).tokens) (hk : startsNode tok = true) :
    (lexStep s).tokens = [tok] ∧ 0 < (wordAt s.cursor.rest).length ∧
      (lexStep s).cursor = s.cursor.skip (wordAt s.cursor.rest).length ∧
      tok.place = s.cursor.place ∧ tok.image.toList = wordAt s.cursor.rest := by
  have hkind : tok.kind = .ident ∨ tok.kind = .keyword ∧ tok.image = "end" := by
    simpa [startsNode] using hk
  obtain ⟨later, htoks⟩ := lexStep_head hr he h (by
    rcases hkind with hkind | ⟨hkind, -⟩
    all_goals
      rw [hkind]
      rfl)
  obtain ⟨c, rest, hrest⟩ := List.exists_cons_of_ne_nil hr
  have htook := lexStep_took hrest he
  generalize lexStep s = y at htook htoks ⊢
  cases htook with
  | blank | comment => cases htoks
  | newline | semi | amp | edgeLabel | classRef | shapeOpen | shapeClose =>
    cases htoks
    cases hk
  | link kind n hlink =>
    cases htoks
    rcases linkAt?_kind hlink with rfl | rfl
    all_goals cases hk
  | word hc =>
    have hpos : 0 < (wordAt s.cursor.rest).length := by simp [hrest, wordAt, hc]
    have hinit : s.cursor.rest.take (wordAt s.cursor.rest).length = wordAt s.cursor.rest :=
      (List.prefix_iff_eq_take.mp (wordAt_isPrefix _)).symm
    -- no node is a keyword that takes the rest of its line
    obtain ⟨more, hword, -⟩ := word_tokens s
    rw [hword] at htoks
    obtain ⟨rfl, -⟩ := List.cons.inj htoks
    have hshort : word s =
        { tokens := [Token.ofText
            (wordKind (.of s) (String.ofList (s.cursor.rest.take (wordAt s.cursor.rest).length)))
            (s.cursor.rest.take (wordAt s.cursor.rest).length) s.cursor.place]
          cursor := s.cursor.skip (wordAt s.cursor.rest).length
          isHeader := wordKind (.of s)
            (String.ofList (s.cursor.rest.take (wordAt s.cursor.rest).length)) == .header } := by
      unfold word
      dsimp only [Cursor.take, Token.ofText] at hkind ⊢
      refine if_neg ?_
      rcases hkind with hkind | ⟨-, himage⟩
      · simp [hkind]
      · simp only [himage]
        simp [textKeywords]
    rw [hshort]
    refine ⟨rfl, hpos, rfl, rfl, ?_⟩
    rw [Token.ofText, String.toList_ofList, hinit]

theorem bracketAt?_eq_some {brackets : List String} {line : Text} {b : String}
    (h : bracketAt? brackets line = some b) : b ∈ brackets ∧ b.toList <+: line := by
  have hstart := List.find?_some h
  exact ⟨List.mem_of_find?_eq_some h, List.isPrefixOf_iff_prefix.mp hstart⟩

theorem lexStep_parts : LexStep.Parts Kind.newline lexStep where
  silent := by
    intro s s' hl hnone
    obtain ⟨c, rest, hrest⟩ := List.exists_cons_of_ne_nil hl.rest
    have htook := lexStep_took hrest hl.errors
    rw [hl.after]
    change _ ∨ (lexStep s).cursor.rest = _
    change (∃ c, s.cursor.rest = c :: (lexStep s).cursor.rest ∧ _) ∨ _
    generalize lexStep s = y at htook hnone
    cases htook with
    | blank hb =>
      refine .inl ⟨c, ?_, hb⟩
      change s.cursor.rest = c :: s.cursor.next.rest
      rw [Cursor.next_rest, hrest]
      rfl
    | comment hc => exact .inr (s.cursor.takeLine_rest)
    | word hc =>
      obtain ⟨later, htoks, -⟩ := word_tokens s
      rw [htoks] at hnone
      cases hnone
    | _ => cases hnone
  lineFeed := by
    intro s rest hrest
    have hstep : lexStep s = lexeme .newline 1 s.cursor := by
      unfold lexStep
      rw [hrest]
      rfl
    exact ⟨_, by rw [hstep]; rfl, rfl⟩

end DiagramLint.Flowchart
