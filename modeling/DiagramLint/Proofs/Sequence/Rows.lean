-- A sequence diagram is read line by line. What the lexer makes of a line
-- below the header depends on its characters alone, up to the places of the
-- tokens: neither on the lines around it nor on the carriage returns that
-- end it.
import DiagramLint.Proofs.Sequence.Spelling

namespace DiagramLint

/-- What a token is, wherever it stands. -/
def Token.shape {κ : Type} (t : Token κ) : κ × String := (t.kind, t.image)

namespace Sequence

open Text

/-! ## The end of a row -/

/-- What is left behind the carriage returns that a text starts with. -/
def rowEnd (y : Text) : Text := y.dropWhile (· == '\r')

/-- Behind carriage returns the text is used up, or a line feed comes. -/
def EndsRow (y : Text) : Prop := ∀ c ∈ (rowEnd y).head?, c = '\n'

section

variable {x y : Text}

theorem rowEnd_nil : rowEnd [] = [] := rfl

theorem EndsRow.exists_returns (y : Text) :
    ∃ returns, y = returns ++ rowEnd y ∧ ∀ c ∈ returns, c = '\r' :=
  ⟨y.takeWhile (· == '\r'), List.takeWhile_append_dropWhile.symm,
    fun _ hc => beq_iff_eq.mp (List.mem_takeWhile_imp (p := (· == '\r')) hc)⟩

/-- Only a carriage return or a line feed stands at the end of a row. -/
theorem EndsRow.head? (h : EndsRow y) : ∀ c ∈ y.head?, c = '\r' ∨ c = '\n' := by
  intro c hc
  obtain ⟨returns, hy, hreturns⟩ := EndsRow.exists_returns y
  cases returns with
  | nil => exact .inr (h c (by rw [hy] at hc; exact hc))
  | cons d returns =>
    rw [hy] at hc
    exact .inl (Option.some.inj hc ▸ hreturns d List.mem_cons_self)

theorem takeWhile_row {p : Char → Bool} (hr : p '\r' = false) (hn : p '\n' = false)
    (x : Text) (hy : EndsRow y) : (x ++ y).takeWhile p = x.takeWhile p := by
  have hnone : y.takeWhile p = [] := by
    cases y with
    | nil => rfl
    | cons c rest =>
      refine List.takeWhile_cons_of_neg ?_
      rcases hy.head? c rfl with rfl | rfl
      · simp [hr]
      · simp [hn]
  rw [List.takeWhile_append, hnone]
  split
  · rename_i hall
    rw [List.append_nil]
    exact ((List.takeWhile_prefix p).eq_of_length hall).symm
  · rfl

theorem dropWhile_row {p : Char → Bool} (hr : p '\r' = false) (hn : p '\n' = false)
    (x : Text) (hy : EndsRow y) : (x ++ y).dropWhile p = x.dropWhile p ++ y := by
  have hsplit := List.takeWhile_append_dropWhile (p := p) (l := x ++ y)
  rw [takeWhile_row hr hn x hy] at hsplit
  refine List.append_cancel_left (hsplit.trans ?_)
  rw [← List.append_assoc, List.takeWhile_append_dropWhile]

theorem takeWhile_line (hx : '\n' ∉ x) (hy : EndsRow y) :
    ∃ returns, (x ++ y).takeWhile (· != '\n') = x ++ returns ∧ (∀ c ∈ returns, c = '\r') ∧
      (x ++ y).dropWhile (· != '\n') = rowEnd y := by
  obtain ⟨returns, hsplit, hreturns⟩ := EndsRow.exists_returns y
  have hline : ∀ c ∈ x ++ returns, (c != '\n') = true := by
    intro c hc
    rw [bne_iff_ne]
    rintro rfl
    rcases List.mem_append.mp hc with hc | hc
    · exact hx hc
    · exact absurd (hreturns _ hc) (by decide)
  have hstop : (rowEnd y).takeWhile (· != '\n') = [] ∧
      (rowEnd y).dropWhile (· != '\n') = rowEnd y := by
    unfold EndsRow at hy
    cases hend : rowEnd y with
    | nil => exact ⟨rfl, rfl⟩
    | cons c rest =>
      rw [hend] at hy
      cases hy c rfl
      exact ⟨rfl, rfl⟩
  refine ⟨returns, ?_, hreturns, ?_⟩
  · conv_lhs => rw [hsplit, ← List.append_assoc]
    rw [List.takeWhile_append_of_pos hline, hstop.1, List.append_nil]
  · conv_lhs => rw [hsplit, ← List.append_assoc]
    rw [List.dropWhile_append_of_pos hline, hstop.2]

theorem lineRest_row (hx : '\n' ∉ x) (hy : EndsRow y) :
    Cursor.lineRest (x ++ y) = dropEndWhile (· == '\r') x := by
  obtain ⟨returns, hline, hreturns, -⟩ := takeWhile_line hx hy
  rw [Cursor.lineRest, hline]
  exact dropEndWhile_append fun c hc => beq_iff_eq.mpr (hreturns c hc)

/-- The blanks of a row go on with the carriage returns behind it. -/
theorem dropWhile_blank_row (hy : EndsRow y) :
    (∀ c ∈ x, Cursor.isBlankChar c = true) ∧
        (x ++ y).dropWhile Cursor.isBlankChar = rowEnd y ∨
      x.dropWhile Cursor.isBlankChar ≠ [] ∧
        (x ++ y).dropWhile Cursor.isBlankChar = x.dropWhile Cursor.isBlankChar ++ y := by
  by_cases hblank : ∀ c ∈ x, Cursor.isBlankChar c = true
  · refine .inl ⟨hblank, ?_⟩
    obtain ⟨returns, hsplit, hreturns⟩ := EndsRow.exists_returns y
    rw [List.dropWhile_append_of_pos hblank]
    conv_lhs => rw [hsplit]
    rw [List.dropWhile_append_of_pos fun c hc => by rw [hreturns c hc]; rfl]
    unfold EndsRow at hy
    cases hend : rowEnd y with
    | nil => rfl
    | cons c rest =>
      rw [hend] at hy
      cases hy c rfl
      rfl
  · have hne : x.dropWhile Cursor.isBlankChar ≠ [] :=
      fun he => hblank (List.dropWhile_eq_nil_iff.mp he)
    refine .inr ⟨hne, ?_⟩
    rw [List.dropWhile_append, if_neg]
    simpa using hne

end

/-! ## Two readers of one row -/

/-- Two readers below the header that take what comes next alike. -/
structure Twins (s s' : Reader Kind) : Prop where
  mode : modeOf s = modeOf s'
  seen : s.headerSeen = true
  seen' : s'.headerSeen = true

/-- Two cursors are still in one row, or both at its end. -/
def Meet (x y y' : Text) (s s' : Cursor) : Prop :=
  (∃ left, left <:+ x ∧ s.rest = left ++ y ∧ s'.rest = left ++ y') ∨
    s.rest = rowEnd y ∧ s'.rest = rowEnd y'

/-- Two steps yield the same, up to places, and lead on to the same rest of the row. -/
structure StepTwins (x y y' : Text) (a b : Yield Kind) : Prop where
  shapes : a.tokens.map Token.shape = b.tokens.map Token.shape
  errors : a.errors = [] ↔ b.errors = []
  meet : Meet x y y' a.cursor b.cursor

section

variable {x y y' : Text} {s s' : Cursor} {r r' : Reader Kind}

theorem Meet.drop (n : Nat) (hn : n ≤ x.length) (hs : s.rest = x ++ y) (hs' : s'.rest = x ++ y') :
    Meet x y y' (s.skip n) (s'.skip n) := by
  refine .inl ⟨x.drop n, List.drop_suffix n x, ?_, ?_⟩
  · rw [Cursor.skip_rest, hs, List.drop_append_of_le_length hn]
  · rw [Cursor.skip_rest, hs', List.drop_append_of_le_length hn]

theorem Meet.of_suffix {x₁ : Text} (hx : x₁ <:+ x) (h : Meet x₁ y y' s s') : Meet x y y' s s' := by
  rcases h with ⟨left, hleft, h⟩ | h
  · exact .inl ⟨left, hleft.trans hx, h⟩
  · exact .inr h

variable (hx : '\n' ∉ x) (hy : EndsRow y) (hy' : EndsRow y')
include hx hy hy'

theorem trailingText_twins (hs : s.rest = x ++ y) (hs' : s'.rest = x ++ y') :
    (trailingText s).1.map Token.shape = (trailingText s').1.map Token.shape ∧
      Meet x y y' (trailingText s).2 (trailingText s').2 := by
  have hblank : ∀ (s : Cursor) (y : Text), EndsRow y → s.skipBlanks.rest = rowEnd y →
      trailingText s = ([], s.skipBlanks) := by
    intro s y hy hrest
    have hend : s.skipBlanks.atLineEnd = true := by
      have hline := lineRest_row (x := []) (by simp) (show EndsRow (rowEnd y) by
        unfold EndsRow at hy ⊢
        cases he : rowEnd y with
        | nil => simp [rowEnd]
        | cons c rest =>
          rw [he] at hy
          cases hy c rfl
          simp [rowEnd])
      rw [Cursor.atLineEnd, Cursor.restOfLine, hrest]
      rw [List.nil_append] at hline
      rw [hline]
      rfl
    rw [trailingText, hend]
    rfl
  have hskip : s.skipBlanks.rest = (x ++ y).dropWhile Cursor.isBlankChar := by
    rw [Cursor.skipBlanks_rest, hs]
  have hskip' : s'.skipBlanks.rest = (x ++ y').dropWhile Cursor.isBlankChar := by
    rw [Cursor.skipBlanks_rest, hs']
  rcases dropWhile_blank_row (x := x) hy with ⟨hall, hrest⟩ | ⟨hne, hrest⟩
  · obtain ⟨-, hrest'⟩ | ⟨hne, -⟩ := dropWhile_blank_row (x := x) hy'
    · rw [hblank s y hy (hskip.trans hrest), hblank s' y' hy' (hskip'.trans hrest')]
      exact ⟨rfl, .inr ⟨hskip.trans hrest, hskip'.trans hrest'⟩⟩
    · exact absurd (List.dropWhile_eq_nil_iff.mpr hall) hne
  · obtain ⟨hall, -⟩ | ⟨-, hrest'⟩ := dropWhile_blank_row (x := x) hy'
    · exact absurd (List.dropWhile_eq_nil_iff.mpr hall) hne
    · rw [hrest] at hskip
      rw [hrest'] at hskip'
      have hinner : '\n' ∉ x.dropWhile Cursor.isBlankChar :=
        fun hm => hx ((List.dropWhile_sublist _).subset hm)
      have hline : s.skipBlanks.restOfLine = s'.skipBlanks.restOfLine := by
        rw [Cursor.restOfLine, Cursor.restOfLine, hskip, hskip', lineRest_row hinner hy,
          lineRest_row hinner hy']
      have hend : s.skipBlanks.atLineEnd = s'.skipBlanks.atLineEnd := by
        rw [Cursor.atLineEnd, Cursor.atLineEnd, hline]
      unfold trailingText
      dsimp only
      rw [← hend]
      split
      · exact ⟨rfl, .inl ⟨_, List.dropWhile_suffix _, hskip, hskip'⟩⟩
      · refine ⟨?_, .inr ⟨?_, ?_⟩⟩
        · simp [Cursor.takeLine, hline, Token.shape, Token.ofText]
        · rw [Cursor.takeLine_rest, hskip]
          exact (takeWhile_line hinner hy).choose_spec.2.2
        · rw [Cursor.takeLine_rest, hskip']
          exact (takeWhile_line hinner hy').choose_spec.2.2

theorem withTrailingText_twins {tok tok' : Tok} (htok : tok.shape = tok'.shape)
    (hs : s.rest = x ++ y) (hs' : s'.rest = x ++ y') :
    StepTwins x y y' (withTrailingText tok s) (withTrailingText tok' s') := by
  obtain ⟨hshapes, hmeet⟩ := trailingText_twins hx hy hy' hs hs'
  refine ⟨?_, Iff.rfl, hmeet⟩
  rw [withTrailingText_tokens, withTrailingText_tokens, List.map_cons, List.map_cons, htok,
    hshapes]

theorem word_twins {c : Char} (hr : Twins r r') (hc : isIdentChar c = true)
    (hs : r.cursor.rest = c :: (x ++ y)) (hs' : r'.cursor.rest = c :: (x ++ y')) :
    StepTwins x y y' (word r) (word r') := by
  have hret : isIdentChar '\r' = false := isIdentChar_of_isWhiteSpace (by decide)
  have hfeed : isIdentChar '\n' = false := isIdentChar_of_isWhiteSpace (by decide)
  have htake : r.cursor.rest.takeWhile isIdentChar = c :: x.takeWhile isIdentChar := by
    rw [hs, List.takeWhile_cons_of_pos hc, takeWhile_row hret hfeed x hy]
  have htake' : r'.cursor.rest.takeWhile isIdentChar = c :: x.takeWhile isIdentChar := by
    rw [hs', List.takeWhile_cons_of_pos hc, takeWhile_row hret hfeed x hy']
  have hdrop : (r.cursor.takeWhile isIdentChar).2.rest = x.dropWhile isIdentChar ++ y := by
    rw [Cursor.takeWhile, Cursor.take, Cursor.skip_takeWhile_rest, hs,
      List.dropWhile_cons_of_pos hc, dropWhile_row hret hfeed x hy]
  have hdrop' : (r'.cursor.takeWhile isIdentChar).2.rest = x.dropWhile isIdentChar ++ y' := by
    rw [Cursor.takeWhile, Cursor.take, Cursor.skip_takeWhile_rest, hs',
      List.dropWhile_cons_of_pos hc, dropWhile_row hret hfeed x hy']
  have himage : (r.cursor.takeWhile isIdentChar).1 = (r'.cursor.takeWhile isIdentChar).1 := by
    have hlen : ∀ s : Cursor, (s.takeWhile isIdentChar).1 = s.rest.takeWhile isIdentChar :=
      fun s => (List.prefix_iff_eq_take.mp (List.takeWhile_prefix isIdentChar)).symm
    rw [hlen, hlen, htake, htake']
  have hkind : ∀ w, wordKind r w = wordKind r' w := by
    intro w
    have hstart : r.follows true (· == .newline) = r'.follows true (· == .newline) := by
      rw [Bool.eq_iff_iff, follows_newline_iff, follows_newline_iff, hr.mode]
    simp only [wordKind, hr.seen, hr.seen', hstart]
  have hinner : '\n' ∉ x.dropWhile isIdentChar :=
    fun hm => hx ((List.dropWhile_sublist _).subset hm)
  have hsuffix : x.dropWhile isIdentChar <:+ x := List.dropWhile_suffix _
  unfold word
  dsimp only
  rw [himage, hkind]
  generalize htok : Token.ofText _ _ r.cursor.place = tok
  generalize htok' : Token.ofText _ _ r'.cursor.place = tok'
  have hshape : tok.shape = tok'.shape := by rw [← htok, ← htok']; rfl
  have hsame : (tok.kind == .keyword && !bareKeywords.contains tok.image) =
      (tok'.kind == .keyword && !bareKeywords.contains tok'.image) := by
    rw [← htok, ← htok']
    rfl
  rw [hsame]
  split
  · obtain ⟨hshapes, herrors, hmeet⟩ :=
      withTrailingText_twins hinner hy hy' hshape hdrop hdrop'
    exact ⟨hshapes, herrors, hmeet.of_suffix hsuffix⟩
  · exact ⟨by simp [hshape], Iff.rfl, .inl ⟨_, hsuffix, hdrop, hdrop'⟩⟩

omit hx hy hy' in
theorem lexeme_twins {kind : Kind} {n : Nat} (hn : n ≤ x.length)
    (hs : s.rest = x ++ y) (hs' : s'.rest = x ++ y') :
    StepTwins x y y' (lexeme kind n s) (lexeme kind n s') := by
  have himage : s.rest.take n = s'.rest.take n := by
    rw [hs, hs', List.take_append_of_le_length hn, List.take_append_of_le_length hn]
  refine ⟨?_, Iff.rfl, Meet.drop n hn hs hs'⟩
  simp [lexeme, Yield.token, Cursor.take, Token.shape, Token.ofText, himage]

/-- Readers that are twins take the next step of a row alike. -/
theorem lexStep_twins {c : Char} (hr : Twins r r') (hc : c ≠ '\n')
    (hs : r.cursor.rest = c :: (x ++ y)) (hs' : r'.cursor.rest = c :: (x ++ y')) :
    StepTwins (c :: x) y y' (lexStep r) (lexStep r') := by
  have hline : '\n' ∉ c :: x := by simp [hc.symm, hx]
  have hnext : Meet (c :: x) y y' r.cursor.next r'.cursor.next :=
    Meet.drop 1 (by simp) (x := c :: x) hs hs'
  have hrest : r.cursor.restOfLine = r'.cursor.restOfLine := by
    rw [Cursor.restOfLine, Cursor.restOfLine, hs, hs', ← List.cons_append, ← List.cons_append,
      lineRest_row hline hy, lineRest_row hline hy']
  have hpercent : ∀ {y : Text}, EndsRow y → ((x ++ y).head? = some '%' ↔ x.head? = some '%') := by
    intro y hy
    cases x with
    | cons d x => rfl
    | nil =>
      refine ⟨fun h => ?_, fun h => by cases h⟩
      rcases hy.head? '%' h with h | h
      · cases h
      · cases h
  have hsign : r.follows false Kind.isArrow = r'.follows false Kind.isArrow := by
    rw [Bool.eq_iff_iff, follows_arrow_iff, follows_arrow_iff, hr.mode]
  unfold lexStep
  rw [hs, hs']
  simp only [hsign, hrest, hpercent hy, hpercent hy', if_neg hc]
  split
  · exact ⟨rfl, Iff.rfl, hnext⟩
  split
  · refine ⟨rfl, Iff.rfl, .inr ⟨?_, ?_⟩⟩
    · change r.cursor.takeLine.2.rest = _
      rw [Cursor.takeLine_rest, hs]
      exact (takeWhile_line hline hy).choose_spec.2.2
    · change r'.cursor.takeLine.2.rest = _
      rw [Cursor.takeLine_rest, hs']
      exact (takeWhile_line hline hy').choose_spec.2.2
  split
  · have hshape : (Token.ofText Kind.colon [c] r.cursor.place).shape =
        (Token.ofText Kind.colon [c] r'.cursor.place).shape := rfl
    have hdrop : r.cursor.next.rest = x ++ y := by rw [Cursor.next_rest, hs]; rfl
    have hdrop' : r'.cursor.next.rest = x ++ y' := by rw [Cursor.next_rest, hs']; rfl
    obtain ⟨hshapes, herrors, hmeet⟩ := withTrailingText_twins hx hy hy' hshape hdrop hdrop'
    exact ⟨hshapes, herrors, hmeet.of_suffix (List.suffix_cons c x)⟩
  split
  · exact lexeme_twins (x := c :: x) (by simp) hs hs'
  split
  · obtain ⟨hshapes, herrors, hmeet⟩ := word_twins hx hy hy' hr ‹_› hs hs'
    exact ⟨hshapes, herrors, hmeet.of_suffix (List.suffix_cons c x)⟩
  split
  · rename_i kind n harrow
    have hle := (arrowAt?_length harrow).2.2
    rw [← hrest, Cursor.restOfLine, hs, ← List.cons_append, lineRest_row hline hy] at hle
    have hn : n ≤ (c :: x).length := by
      obtain ⟨gone, hgone, -⟩ := exists_dropEndWhile (· == '\r') (c :: x)
      have := congrArg List.length hgone
      rw [List.length_append] at this
      omega
    exact lexeme_twins (x := c :: x) hn hs hs'
  · exact ⟨rfl, by simp [Yield.error], hnext⟩

end

/-! ## Whole rows -/

theorem run_cons {s : Reader Kind} (h : s.cursor.rest ≠ []) :
    (Scan.run lexStep .eof s).lexed =
      (lexStep s).lexed ++ (Scan.run lexStep .eof (s.after (lexStep s))).lexed := by
  obtain ⟨n, hpos, hcursor⟩ := (lexStep_passes s h).moves
  have hlt : (lexStep s).cursor.rest.length < s.cursor.rest.length := by
    rw [hcursor, Cursor.skip_rest, List.length_drop]
    have := List.length_pos_of_ne_nil h
    omega
  obtain ⟨c, rest, hrest⟩ := List.exists_cons_of_ne_nil h
  rw [Scan.run, hrest]
  dsimp only
  rw [if_pos (hrest ▸ hlt), Scan.lexed_after]

theorem run_nil {s : Reader Kind} (h : s.cursor.rest = []) :
    (Scan.run lexStep .eof s).lexed = ⟨[Token.ofText .eof [] s.cursor.place], []⟩ := by
  rw [Scan.run, h]
  rfl

theorem lexed_append_assoc (a b c : Lexed Kind) : a ++ b ++ c = a ++ (b ++ c) := by
  change Lexed.append (Lexed.append a b) c = Lexed.append a (Lexed.append b c)
  simp [Lexed.append]

theorem lexed_nil_append (a : Lexed Kind) : (⟨[], []⟩ : Lexed Kind) ++ a = a := rfl

/-- Blanks are passed in silence. -/
theorem run_blanks {s : Reader Kind} {blanks z : Text} (hs : s.cursor.rest = blanks ++ z)
    (hb : ∀ c ∈ blanks, Cursor.isBlankChar c = true) :
    ∃ e, (Scan.run lexStep .eof s).lexed = (Scan.run lexStep .eof e).lexed ∧ e.cursor.rest = z ∧
      modeOf e = modeOf s ∧ e.headerSeen = s.headerSeen := by
  induction blanks generalizing s with
  | nil => exact ⟨s, rfl, hs, rfl, rfl⟩
  | cons c blanks ih =>
    have hstep : lexStep s = .nothing s.cursor.next := by
      unfold lexStep
      rw [hs]
      exact if_pos (hb c List.mem_cons_self)
    obtain ⟨e, hrun, hrest, hmode, hseen⟩ := ih (s := s.after (lexStep s))
      (by rw [hstep]; change s.cursor.next.rest = _; rw [Cursor.next_rest, hs]; rfl)
      (fun c hm => hb c (List.mem_cons_of_mem _ hm))
    refine ⟨e, ?_, hrest, ?_, ?_⟩
    · rw [run_cons (by rw [hs]; exact List.cons_ne_nil _ _), ← hrun, hstep]
      exact lexed_nil_append _
    · rw [hmode, hstep]
      exact modeOf_after_nothing rfl
    · rw [hseen, hstep]
      exact Bool.or_false _

/-- Two readers of one row have come to its end, and have yielded the same up to places. -/
structure RowTwins (y y' : Text) (s s' : Reader Kind) (first first' : Lexed Kind)
    (e e' : Reader Kind) : Prop where
  run : (Scan.run lexStep .eof s).lexed = first ++ (Scan.run lexStep .eof e).lexed
  run' : (Scan.run lexStep .eof s').lexed = first' ++ (Scan.run lexStep .eof e').lexed
  twins : Twins e e'
  rest : e.cursor.rest = rowEnd y
  rest' : e'.cursor.rest = rowEnd y'
  shapes : first.tokens.map Token.shape = first'.tokens.map Token.shape
  errors : first.errors = [] ↔ first'.errors = []

theorem Twins.after {s s' : Reader Kind} (h : Twins s s') {x y y' : Text} {a b : Yield Kind}
    (hstep : StepTwins x y y' a b) : Twins (s.after a) (s'.after b) where
  mode := by
    have hlast := congrArg List.getLast? hstep.shapes
    rw [List.getLast?_map, List.getLast?_map] at hlast
    cases ha : a.tokens.getLast? with
    | none =>
      rw [ha, Option.map_none, eq_comm, Option.map_eq_none_iff] at hlast
      rw [modeOf_after_nothing (List.getLast?_eq_none_iff.mp ha),
        modeOf_after_nothing (List.getLast?_eq_none_iff.mp hlast), h.mode]
    | some tok =>
      rw [ha, Option.map_some, eq_comm, Option.map_eq_some_iff] at hlast
      obtain ⟨tok', htok', hshape⟩ := hlast
      have hkind : tok.kind = tok'.kind := congrArg Prod.fst hshape.symm
      rw [modeOf_after_token ha, modeOf_after_token htok', hkind]
  seen := by simp [Reader.after, h.seen]
  seen' := by simp [Reader.after, h.seen']

theorem RowTwins.of_step {x y y' : Text} {s s' e e' : Reader Kind} {first first' : Lexed Kind}
    (h : RowTwins y y' (s.after (lexStep s)) (s'.after (lexStep s')) first first' e e')
    (hstep : StepTwins x y y' (lexStep s) (lexStep s')) (hs : s.cursor.rest ≠ [])
    (hs' : s'.cursor.rest ≠ []) :
    RowTwins y y' s s' ((lexStep s).lexed ++ first) ((lexStep s').lexed ++ first') e e' where
  run := by rw [run_cons hs, h.run, ← lexed_append_assoc]
  run' := by rw [run_cons hs', h.run', ← lexed_append_assoc]
  twins := h.twins
  rest := h.rest
  rest' := h.rest'
  shapes := by
    change ((lexStep s).tokens ++ first.tokens).map _ = ((lexStep s').tokens ++ first'.tokens).map _
    rw [List.map_append, List.map_append, hstep.shapes, h.shapes]
  errors := by
    change (lexStep s).errors ++ first.errors = [] ↔ (lexStep s').errors ++ first'.errors = []
    rw [List.append_eq_nil_iff, List.append_eq_nil_iff, hstep.errors, h.errors]

/-- Twins read a row alike, whatever comes behind it. -/
theorem run_twins {x y y' : Text} {s s' : Reader Kind} (h : Twins s s') (hx : '\n' ∉ x)
    (hy : EndsRow y) (hy' : EndsRow y') (hs : s.cursor.rest = x ++ y)
    (hs' : s'.cursor.rest = x ++ y') : ∃ first first' e e', RowTwins y y' s s' first first' e e' := by
  induction hn : x.length using Nat.strongRecOn generalizing x s s' with
  | ind n ih =>
    cases x with
    | nil =>
      have hend : ∀ {s : Reader Kind} {y : Text}, s.cursor.rest = y →
          ∃ e, (Scan.run lexStep .eof s).lexed = (Scan.run lexStep .eof e).lexed ∧
            e.cursor.rest = rowEnd y ∧ modeOf e = modeOf s ∧ e.headerSeen = s.headerSeen := by
        intro s y hs
        obtain ⟨returns, hsplit, hreturns⟩ := EndsRow.exists_returns y
        exact run_blanks (hs.trans hsplit) fun c hc => by rw [hreturns c hc]; rfl
      obtain ⟨e, hrun, hrest, hmode, hseen⟩ := hend hs
      obtain ⟨e', hrun', hrest', hmode', hseen'⟩ := hend hs'
      exact ⟨⟨[], []⟩, ⟨[], []⟩, e, e', hrun, hrun',
        ⟨by rw [hmode, hmode', h.mode], by rw [hseen, h.seen], by rw [hseen', h.seen']⟩, hrest,
        hrest', rfl, Iff.rfl⟩
    | cons c x =>
      obtain ⟨hc, hx'⟩ := not_or.mp (fun hor => hx (List.mem_cons.mpr hor))
      have hstep := lexStep_twins hx' hy hy' h (Ne.symm hc) hs hs'
      have hafter := h.after hstep
      have hne : s.cursor.rest ≠ [] := by rw [hs]; exact List.cons_ne_nil _ _
      have hne' : s'.cursor.rest ≠ [] := by rw [hs']; exact List.cons_ne_nil _ _
      -- either the row goes on behind the step, or the step has taken all that was left of it
      rcases hstep.meet with ⟨left, hleft, hrest, hrest'⟩ | ⟨hrest, hrest'⟩
      · have hlen : left.length < (c :: x).length := by
          obtain ⟨k, hpos, hcursor⟩ := (lexStep_passes s hne).moves
          have hshort := congrArg (fun s : Cursor => s.rest.length) hcursor
          simp only [Cursor.skip_rest, List.length_drop, hrest, hs, List.length_append,
            List.length_cons] at hshort ⊢
          omega
        obtain ⟨first, first', e, e', hlater⟩ :=
          ih _ (hn ▸ hlen) hafter (fun hm => hx (hleft.subset hm)) hrest hrest' rfl
        exact ⟨_, _, e, e', hlater.of_step hstep hne hne'⟩
      · have hlater : RowTwins y y' (s.after (lexStep s)) (s'.after (lexStep s')) ⟨[], []⟩ ⟨[], []⟩
            _ _ := ⟨rfl, rfl, hafter, hrest, hrest', rfl, Iff.rfl⟩
        exact ⟨_, _, _, _, hlater.of_step hstep hne hne'⟩

end Sequence

end DiagramLint
