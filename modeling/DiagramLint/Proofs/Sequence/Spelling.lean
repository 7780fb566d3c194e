-- The characters of a sequence diagram, piece by piece. What the lexer reads
-- of a text is spelled by pieces that do not look ahead, and every text that
-- is spelled by such pieces is read without an error.
import DiagramLint.Proofs.Lexing.Mending
import DiagramLint.Proofs.Sequence.Lexer
import DiagramLint.Proofs.Sequence.Tiles

namespace DiagramLint.Sequence

/-! ## Modes and pieces -/

/-- What the characters read last on a line allow next. -/
inductive Mode where
  /-- At the start of a line. -/
  | start
  | inside
  /-- Behind an arrow, where a sign is an activation. -/
  | afterArrow
  /-- Where the text of a message or a keyword starts. -/
  | opened
  /-- In a text or a comment, which goes up to the end of the line. -/
  | text
  deriving DecidableEq

namespace Mode

/-- The modes in which tokens are read. -/
def reads : Mode → Bool
  | start | inside | afterArrow => true
  | opened | text => false

/-- Free text lets everything pass, and its start everything but text. -/
def Le (m m' : Mode) : Prop := m = m' ∨ m' = text ∨ m' = opened ∧ m ≠ text

theorem Le.refl (m : Mode) : m.Le m := .inl rfl

theorem Le.trans {a b c : Mode} (hab : a.Le b) (hbc : b.Le c) : a.Le c := by
  rcases hbc with rfl | rfl | ⟨rfl, hb⟩
  · exact hab
  · exact .inr (.inl rfl)
  · rcases hab with rfl | rfl | ⟨-, ha⟩
    · exact .inr (.inr ⟨rfl, hb⟩)
    · exact absurd rfl hb
    · exact .inr (.inr ⟨rfl, ha⟩)

theorem le_text (m : Mode) : m.Le text := .inr (.inl rfl)

theorem le_opened {m : Mode} (h : m.reads = true) : m.Le opened := by
  refine .inr (.inr ⟨rfl, ?_⟩)
  rintro rfl
  cases h

end Mode

/-- A piece of a text, and the modes it leads between. -/
inductive Piece : Mode → Text → Mode → Prop where
  | blank {m : Mode} {c : Char} (hm : m ≠ .text) (hc : Cursor.isBlankChar c = true) : Piece m [c] m
  | lineFeed (m : Mode) : Piece m ['\n'] .start
  | comment {m : Mode} (hm : m.reads = true) : Piece m ['%', '%'] .text
  | colon {m : Mode} (hm : m.reads = true) : Piece m [':'] .opened
  | sign {c : Char} (hc : c = '+' ∨ c = '-') : Piece .afterArrow [c] .inside
  | ident {m : Mode} {c : Char} (hm : m.reads = true) (hc : isIdentChar c = true) :
    Piece m [c] .inside
  | arrow {m : Mode} {a : String} (hm : m.reads = true) (ha : a ∈ arrows ++ invalidArrows)
    (hs : m = .afterArrow → a.toList.head? ≠ some '-') : Piece m a.toList .afterArrow
  | keyword {w : String} {x : Text} (hw : w ∈ keywords) (hb : w ∉ bareKeywords) (hx : Filled x)
    (hi : ∀ c ∈ x.head?, isIdentChar c = false) : Piece .start (w.toList ++ x) .text
  | fill {x : Text} (hx : Filled x) : Piece .opened x .text
  | text {c : Char} (hc : c ≠ '\n') : Piece .text [c] .text

/-- A text spelled by pieces. -/
abbrev Spells : Mode → Text → Mode → Prop := Spelling Piece

/-! ## Pieces of a line -/

theorem filled_singleton {c : Char} (h : isWhiteSpace c = false) : Filled [c] := by
  refine ⟨?_, c, List.mem_singleton_self c, h⟩
  intro hm
  rw [← List.mem_singleton.mp hm] at h
  exact absurd h (by decide)

theorem isWhiteSpace_of_isIdentChar {c : Char} (h : isIdentChar c = true) :
    isWhiteSpace c = false := by
  rw [← Bool.not_eq_true]
  intro hw
  rw [isIdentChar_of_isWhiteSpace hw] at h
  cases h

theorem filled_arrow {a : String} (h : a ∈ arrows ++ invalidArrows) : Filled a.toList := by
  have hall : ∀ a ∈ arrows ++ invalidArrows,
      ('\n' ∉ a.toList ∧ (a.toList.any fun c => !isWhiteSpace c) = true) := by decide
  obtain ⟨hline, hany⟩ := hall a h
  obtain ⟨c, hc, hw⟩ := List.any_eq_true.mp hany
  exact ⟨hline, c, hc, by simpa using hw⟩

theorem isIdentChar_of_keyword {w : String} (h : w ∈ keywords) :
    w.toList.all isIdentChar = true := by
  have hall : ∀ w ∈ keywords, w.toList.all isIdentChar = true := by decide
  exact hall w h

theorem newline_not_mem_keyword {w : String} (h : w ∈ keywords) : '\n' ∉ w.toList := by
  have hall : ∀ w ∈ keywords, '\n' ∉ w.toList := by decide
  exact hall w h

/-- A piece is a line feed, a blank, a character of a text, or fills part of a line. -/
theorem Piece.cases {m e : Mode} {a : Text} (h : Piece m a e) :
    a = ['\n'] ∧ e = .start ∨ (∃ c, a = [c] ∧ Cursor.isBlankChar c = true) ∧ e = m ∨
      '\n' ∉ a ∧ m = .text ∨ Filled a := by
  cases h with
  | blank hm hc => exact .inr (.inl ⟨⟨_, rfl, hc⟩, rfl⟩)
  | lineFeed => exact .inl ⟨rfl, rfl⟩
  | comment => exact .inr (.inr (.inr ⟨by decide, '%', by decide, by decide⟩))
  | colon => exact .inr (.inr (.inr (filled_singleton (by decide))))
  | sign hc =>
    refine .inr (.inr (.inr (filled_singleton ?_)))
    rcases hc with rfl | rfl
    · decide
    · decide
  | ident hm hc => exact .inr (.inr (.inr (filled_singleton (isWhiteSpace_of_isIdentChar hc))))
  | arrow hm ha => exact .inr (.inr (.inr (filled_arrow ha)))
  | keyword hw hb hx =>
    refine .inr (.inr (.inr ⟨?_, ?_⟩))
    · simpa using ⟨newline_not_mem_keyword hw, hx.1⟩
    · obtain ⟨c, hc, hwhite⟩ := hx.2
      exact ⟨c, List.mem_append_right _ hc, hwhite⟩
  | fill hx => exact .inr (.inr (.inr hx))
  | text hc =>
    refine .inr (.inr (.inl ⟨?_, rfl⟩))
    simpa using fun h => hc h.symm

theorem Piece.lineFeed_or {m e : Mode} {a : Text} (h : Piece m a e) :
    a = ['\n'] ∧ e = .start ∨ '\n' ∉ a := by
  rcases h.cases with h | ⟨⟨c, rfl, hc⟩, -⟩ | ⟨h, -⟩ | h
  · exact .inl h
  · refine .inr ?_
    have := Cursor.ne_newline_of_isBlankChar hc
    rw [bne_iff_ne] at this
    simpa using fun h => this h.symm
  · exact .inr h
  · exact .inr h.1

theorem spells_text {x : Text} (h : '\n' ∉ x) : Spells .text x .text := by
  refine Spelling.of_chars fun c hc => .text ?_
  rintro rfl
  exact h hc

theorem graded : Graded Piece Mode.Le where
  refl := Mode.Le.refl
  trans := Mode.Le.trans
  mono := by
    intro m a e m' hp hle
    rcases hle with rfl | rfl | ⟨rfl, hm⟩
    · exact ⟨e, .refl e, .single hp⟩
    · rcases hp.lineFeed_or with ⟨rfl, rfl⟩ | hline
      · exact ⟨.start, .refl _, .single (.lineFeed _)⟩
      · exact ⟨.text, Mode.le_text e, spells_text hline⟩
    · rcases hp.cases with ⟨rfl, rfl⟩ | ⟨⟨c, rfl, hc⟩, rfl⟩ | ⟨-, rfl⟩ | hfill
      · exact ⟨.start, .refl _, .single (.lineFeed _)⟩
      · exact ⟨.opened, .inr (.inr ⟨rfl, hm⟩), .single (.blank (by decide) hc)⟩
      · exact absurd rfl hm
      · exact ⟨.text, Mode.le_text e, .single (.fill hfill)⟩

/-- At the end of a line a spelling goes on in every mode. -/
theorem spells_line_end {m e : Mode} {t : Text} (h : Spells m t e) (m' : Mode) :
    ∃ e', Spells m' (t.dropWhile (· != '\n')) e' := by
  induction h with
  | nil m => exact ⟨m', .nil m'⟩
  | cons hp hb ih =>
    rcases hp.lineFeed_or with ⟨rfl, rfl⟩ | hline
    · exact ⟨_, .cons (.lineFeed m') hb⟩
    · rw [List.dropWhile_append_of_pos]
      · exact ih
      · intro c hc
        rw [bne_iff_ne]
        rintro rfl
        exact hline hc

/-! ## The mode of a reader -/

/-- The mode behind a token of a kind. -/
def Kind.mode : Kind → Mode
  | .newline => .start
  | .arrow | .invalidArrow => .afterArrow
  | _ => .inside

/-- The mode a reader is in. -/
def modeOf (s : Reader Kind) : Mode := s.previous.elim .start (·.kind.mode)

section

variable {s : Reader Kind} {y : Yield Kind}

theorem modeOf_reads (s : Reader Kind) : (modeOf s).reads = true := by
  unfold modeOf
  cases s.previous with
  | none => rfl
  | some tok =>
    obtain ⟨kind, image, line, column⟩ := tok
    cases kind <;> rfl

theorem follows_newline_iff : s.follows true (· == .newline) = true ↔ modeOf s = .start := by
  unfold Reader.follows modeOf
  cases s.previous with
  | none => simp
  | some tok =>
    obtain ⟨kind, image, line, column⟩ := tok
    cases kind <;> simp [Kind.mode]

theorem follows_arrow_iff : s.follows false Kind.isArrow = true ↔ modeOf s = .afterArrow := by
  unfold Reader.follows modeOf
  cases s.previous with
  | none => simp
  | some tok =>
    obtain ⟨kind, image, line, column⟩ := tok
    cases kind <;> simp [Kind.mode, Kind.isArrow]

theorem modeOf_after_nothing (h : y.tokens = []) : modeOf (s.after y) = modeOf s := by
  simp [modeOf, Reader.after, h]

theorem modeOf_after_token {tok : Tok} (h : y.tokens.getLast? = some tok) :
    modeOf (s.after y) = tok.kind.mode := by
  simp [modeOf, Reader.after, h]

end

/-! ## What the lexer reads is spelled -/

/-- What a step passes is spelled, and leads above the mode of the next reader. -/
def Spelled (s : Reader Kind) (y : Yield Kind) : Prop :=
  ∃ x e, s.cursor.rest = x ++ y.cursor.rest ∧ (modeOf (s.after y)).Le e ∧ Spells (modeOf s) x e

section

variable {s : Reader Kind}

theorem rest_eq_take (c : Cursor) (n : Nat) : c.rest = c.rest.take n ++ (c.skip n).rest := by
  rw [Cursor.skip_rest, List.take_append_drop]

theorem spelled_lexeme {kind : Kind} {n : Nat}
    (h : Spells (modeOf s) (s.cursor.rest.take n) kind.mode) :
    Spelled s (lexeme kind n s.cursor) := by
  refine ⟨s.cursor.rest.take n, kind.mode, rest_eq_take _ n, ?_, h⟩
  rw [modeOf_after_token rfl]
  exact .refl _

/-- The text that a line ends with: blanks, or characters that fill it. -/
theorem trailingText_cases (s : Cursor) :
    ∃ x, s.rest = x ++ (trailingText s).2.rest ∧
      ((∀ c ∈ x, Cursor.isBlankChar c = true) ∧ (trailingText s).1 = [] ∨
        Filled x ∧ ∃ tok, (trailingText s).1 = [tok] ∧ tok.kind = .text) := by
  rcases s.trailingToken_cases Kind.text with ⟨-, hnone, hrest⟩ | ⟨hfill, htok, hrest⟩
  · refine ⟨s.rest.takeWhile Cursor.isBlankChar, ?_, .inl ⟨?_, hnone⟩⟩
    · exact hrest ▸ List.takeWhile_append_dropWhile.symm
    · exact fun c hc => List.mem_takeWhile_imp hc
  · exact ⟨s.wholeLine, hrest ▸ List.takeWhile_append_dropWhile.symm, .inr ⟨hfill, htok⟩⟩

theorem withTrailingText_tokens (tok : Tok) (s : Cursor) :
    (withTrailingText tok s).tokens = tok :: (trailingText s).1 := rfl

theorem spells_blanks {m : Mode} (hm : m ≠ .text) {x : Text}
    (h : ∀ c ∈ x, Cursor.isBlankChar c = true) : Spells m x m :=
  .of_chars fun c hc => .blank hm (h c hc)

theorem spells_ident {m : Mode} (hm : m.reads = true) {x : Text} (hne : x ≠ [])
    (h : ∀ c ∈ x, isIdentChar c = true) : Spells m x .inside := by
  obtain ⟨c, rest, rfl⟩ := List.exists_cons_of_ne_nil hne
  refine .cons (Piece.ident hm (h c List.mem_cons_self)) (.of_chars ?_)
  exact fun d hd => Piece.ident rfl (h d (List.mem_cons_of_mem _ hd))

theorem spelled_colon {c : Char} {rest : Text} (hrest : s.cursor.rest = c :: rest) (hc : c = ':') :
    Spelled s (withTrailingText (Token.ofText .colon [c] s.cursor.place) s.cursor.next) := by
  obtain ⟨x, hx, hcases⟩ := trailingText_cases s.cursor.next
  have hnext : s.cursor.next.rest = rest := by rw [Cursor.next_rest, hrest]; rfl
  have hall : s.cursor.rest = (':' :: x) ++ (trailingText s.cursor.next).2.rest := by
    rw [hrest, hc, List.cons_append, ← hx, hnext]
  have hcolon : Spells (modeOf s) [':'] .opened := .single (.colon (modeOf_reads s))
  rcases hcases with ⟨hblank, hnone⟩ | ⟨hfill, tok, htok, hkind⟩
  · refine ⟨':' :: x, .opened, hall, ?_, hcolon.append (spells_blanks (by decide) hblank)⟩
    exact Mode.le_opened (modeOf_reads _)
  · exact ⟨':' :: x, .text, hall, Mode.le_text _, hcolon.append (.single (.fill hfill))⟩

theorem mode_wordKind (s : Reader Kind) (w : String) : (wordKind s w).mode = .inside := by
  unfold wordKind
  dsimp only
  split
  · rfl
  · split <;> rfl

theorem wordKind_keyword {w : String} (h : wordKind s w = .keyword) :
    modeOf s = .start ∧ w ∈ keywords := by
  unfold wordKind at h
  dsimp only at h
  split at h
  · cases h
  · split at h
    · rename_i hw
      rw [Bool.and_eq_true, List.contains_iff_mem] at hw
      exact ⟨follows_newline_iff.mp hw.1, hw.2⟩
    · cases h

theorem spelled_word {c : Char} {rest : Text} (hrest : s.cursor.rest = c :: rest)
    (hc : isIdentChar c = true) : Spelled s (word s) := by
  have hne : s.cursor.rest.takeWhile isIdentChar ≠ [] := by simp [hrest, hc]
  have hsplit := rest_eq_take s.cursor (s.cursor.rest.takeWhile isIdentChar).length
  have hbehind := s.cursor.skip_takeWhile_rest isIdentChar
  have hident : Spells (modeOf s) (s.cursor.rest.takeWhile isIdentChar) .inside :=
    spells_ident (modeOf_reads s) hne fun d hd => List.mem_takeWhile_imp hd
  unfold word
  dsimp only [Cursor.takeWhile, Cursor.take]
  rw [(List.prefix_iff_eq_take.mp (List.takeWhile_prefix isIdentChar)).symm] at hsplit ⊢
  generalize s.cursor.rest.takeWhile isIdentChar = run at hident hsplit hbehind ⊢
  split
  · rename_i hkeyword
    rw [Bool.and_eq_true, beq_iff_eq] at hkeyword
    obtain ⟨hkind, hbare⟩ := hkeyword
    obtain ⟨hstart, hw⟩ := wordKind_keyword hkind
    obtain ⟨x, hx, hcases⟩ := trailingText_cases (s.cursor.skip run.length)
    have hall : s.cursor.rest = (run ++ x) ++ (trailingText (s.cursor.skip run.length)).2.rest := by
      rw [List.append_assoc, ← hx]
      exact hsplit
    rcases hcases with ⟨hblank, hnone⟩ | ⟨hfill, tok, htok, hkind'⟩
    · -- blanks alone are no text: the keyword is read as a word
      refine ⟨run ++ x, .inside, hall, ?_, hident.append (spells_blanks (by decide) hblank)⟩
      have hlast : (withTrailingText
          (Token.ofText (wordKind s (String.ofList run)) run s.cursor.place)
          (s.cursor.skip run.length)).tokens.getLast? =
            some (Token.ofText (wordKind s (String.ofList run)) run s.cursor.place) := by
        rw [withTrailingText_tokens, hnone]
        rfl
      rw [modeOf_after_token hlast, hkind]
      exact .refl _
    · refine ⟨run ++ x, .text, hall, Mode.le_text _, ?_⟩
      have hpiece := Piece.keyword hw (by simpa [Token.ofText] using hbare) hfill fun d hd =>
        Cursor.head?_of_dropWhile (hbehind.symm.trans hx) hd
      rw [hstart]
      simpa using Spelling.single hpiece
  · refine ⟨run, .inside, hsplit, ?_, hident⟩
    have hkind := mode_wordKind s (String.ofList run)
    exact .inl hkind

/-- The arrow found is the first of all arrows that the line starts with. -/
theorem arrowAt?_find {line : Text} :
    (∀ kind n, arrowAt? line = some (kind, n) → kind.isArrow = true ∧
      ∃ a, (arrows ++ invalidArrows).find? (fun a => line.startsWith a.toList) = some a ∧
        a.toList.length = n) ∧
      (arrowAt? line = none →
        (arrows ++ invalidArrows).find? (fun a => line.startsWith a.toList) = none) := by
  unfold arrowAt?
  rw [List.find?_append]
  cases arrows.find? fun a => line.startsWith a.toList with
  | some a =>
    refine ⟨?_, fun h => by cases h⟩
    intro kind n h
    cases h
    exact ⟨rfl, a, rfl, String.length_toList⟩
  | none =>
    cases invalidArrows.find? fun a => line.startsWith a.toList with
    | some a =>
      refine ⟨?_, fun h => by cases h⟩
      intro kind n h
      cases h
      exact ⟨rfl, a, rfl, String.length_toList⟩
    | none => exact ⟨(fun _ _ h => nomatch h), fun _ => rfl⟩

theorem mode_of_isArrow {kind : Kind} (h : kind.isArrow = true) : kind.mode = .afterArrow := by
  cases kind with
  | arrow => rfl
  | invalidArrow => rfl
  | _ => cases h

/-- What a step without an error does, told by the next character. -/
theorem lexStep_cases {c : Char} {rest : Text} (hrest : s.cursor.rest = c :: rest)
    (he : (lexStep s).errors = []) :
    Cursor.isBlankChar c = true ∧ lexStep s = .nothing s.cursor.next ∨
      c = '\n' ∧ lexStep s = lexeme .newline 1 s.cursor ∨
      (c = '%' ∧ rest.head? = some '%') ∧ lexStep s = .nothing s.cursor.takeLine.2 ∨
      c = ':' ∧ lexStep s =
        withTrailingText (Token.ofText .colon [c] s.cursor.place) s.cursor.next ∨
      ((c = '+' ∨ c = '-') ∧ modeOf s = .afterArrow) ∧
        lexStep s = lexeme .activation 1 s.cursor ∨
      isIdentChar c = true ∧ lexStep s = word s ∨
      (modeOf s = .afterArrow → c ≠ '-') ∧ ∃ kind n,
        arrowAt? s.cursor.restOfLine = some (kind, n) ∧ lexStep s = lexeme kind n s.cursor := by
  unfold lexStep at he ⊢
  rw [hrest] at he ⊢
  dsimp only at he ⊢
  by_cases hb : Cursor.isBlankChar c = true
  · exact .inl ⟨hb, if_pos hb⟩
  rw [if_neg hb] at he ⊢
  by_cases hn : c = '\n'
  · exact .inr (.inl ⟨hn, if_pos hn⟩)
  rw [if_neg hn] at he ⊢
  by_cases hcomment : c = '%' ∧ rest.head? = some '%'
  · exact .inr (.inr (.inl ⟨hcomment, if_pos hcomment⟩))
  rw [if_neg hcomment] at he ⊢
  by_cases hcolon : c = ':'
  · exact .inr (.inr (.inr (.inl ⟨hcolon, if_pos hcolon⟩)))
  rw [if_neg hcolon] at he ⊢
  by_cases hsign : (c = '+' ∨ c = '-') ∧ s.follows false Kind.isArrow = true
  · exact .inr (.inr (.inr (.inr (.inl
      ⟨⟨hsign.1, follows_arrow_iff.mp hsign.2⟩, if_pos hsign⟩))))
  rw [if_neg hsign] at he ⊢
  by_cases hident : isIdentChar c = true
  · exact .inr (.inr (.inr (.inr (.inr (.inl ⟨hident, if_pos hident⟩)))))
  rw [if_neg hident] at he ⊢
  cases harrow : arrowAt? s.cursor.restOfLine with
  | none =>
    rw [harrow] at he
    cases he
  | some found =>
    refine .inr (.inr (.inr (.inr (.inr (.inr ⟨?_, found.1, found.2, rfl, rfl⟩)))))
    exact fun hmode hc => hsign ⟨.inr hc, follows_arrow_iff.mpr hmode⟩

/-- A step without an error is spelled. -/
theorem lexStep_spelled (hr : s.cursor.rest ≠ []) (he : (lexStep s).errors = []) :
    Spelled s (lexStep s) := by
  obtain ⟨c, rest, hrest⟩ := List.exists_cons_of_ne_nil hr
  have htake : s.cursor.rest.take 1 = [c] := by rw [hrest]; rfl
  have hreads := modeOf_reads s
  rcases lexStep_cases hrest he with ⟨hb, hstep⟩ | ⟨hn, hstep⟩ | ⟨hcomment, hstep⟩ |
    ⟨hcolon, hstep⟩ | ⟨hsign, hstep⟩ | ⟨hident, hstep⟩ | ⟨hdash, kind, n, harrow, hstep⟩
  all_goals rw [hstep]
  · refine ⟨[c], modeOf s, ?_, ?_, .single (.blank ?_ hb)⟩
    · change _ = [c] ++ s.cursor.next.rest
      rw [Cursor.next_rest, hrest]
      rfl
    · rw [modeOf_after_nothing rfl]
      exact .refl _
    · intro htext
      rw [htext] at hreads
      cases hreads
  · refine spelled_lexeme ?_
    rw [htake, hn]
    exact .single (.lineFeed _)
  · obtain ⟨rfl, hsecond⟩ := hcomment
    obtain ⟨more, rfl⟩ := List.head?_eq_some_iff.mp hsecond
    refine ⟨s.cursor.wholeLine, .text, ?_, Mode.le_text _, ?_⟩
    · change _ = _ ++ s.cursor.takeLine.2.rest
      rw [Cursor.takeLine_rest]
      exact List.takeWhile_append_dropWhile.symm
    · have hline := s.cursor.newline_not_mem_wholeLine
      have hwhole : s.cursor.wholeLine = ['%', '%'] ++ more.takeWhile (· != '\n') := by
        rw [Cursor.wholeLine, hrest]
        rfl
      rw [hwhole] at hline ⊢
      refine .cons (.comment hreads) (spells_text ?_)
      exact fun hm => hline (List.mem_append_right _ hm)
  · exact spelled_colon hrest hcolon
  · refine spelled_lexeme ?_
    rw [htake, hsign.2]
    exact .single (.sign hsign.1)
  · exact spelled_word hrest hident
  · obtain ⟨hkind, a, ha, hlen⟩ := arrowAt?_find.1 kind n harrow
    have hstart := List.find?_some ha
    have hall := (List.isPrefixOf_iff_prefix.mp hstart).trans s.cursor.restOfLine_isPrefix
    refine spelled_lexeme ?_
    rw [← hlen, ← List.prefix_iff_eq_take.mp hall, mode_of_isArrow hkind]
    refine .single (.arrow hreads (List.mem_of_find?_eq_some ha) ?_)
    intro hmode hhead
    obtain ⟨more, hmore⟩ := hall
    obtain ⟨tail, htail⟩ := List.head?_eq_some_iff.mp hhead
    rw [htail, hrest] at hmore
    exact hdash hmode (List.cons.inj hmore).1.symm

theorem lexStep_spells : lexStep.Spells Piece Mode.Le fun _ => modeOf := by
  intro before s s' h
  rw [h.after]
  exact lexStep_spelled h.rest h.errors

end

/-! ## What is spelled is read -/

section

variable {m e : Mode} {t : Text}

/-- Where a message or a keyword has only white space behind it, it is blanks. -/
theorem spells_behind_blanks (h : Spells .opened t e)
    (hw : ∀ c ∈ t.takeWhile (· != '\n'), isWhiteSpace c = true) (m : Mode) :
    ∃ e', Spells m (t.dropWhile Cursor.isBlankChar) e' := by
  induction t with
  | nil => exact ⟨m, .nil m⟩
  | cons c t ih =>
    rcases h.cases_first with ⟨hnil, -⟩ | ⟨a, b, m', heq, hp, hb⟩
    · cases hnil
    · cases hp with
      | blank hm hc =>
        obtain ⟨rfl, rfl⟩ := List.cons.inj heq
        rw [List.dropWhile_cons_of_pos hc]
        refine ih hb fun d hd => hw d ?_
        rw [List.takeWhile_cons_of_pos (p := (· != '\n')) (Cursor.ne_newline_of_isBlankChar hc)]
        exact List.mem_cons_of_mem _ hd
      | lineFeed =>
        obtain ⟨rfl, rfl⟩ := List.cons.inj heq
        exact ⟨e, .cons (.lineFeed m) hb⟩
      | fill hx =>
        obtain ⟨hline, d, hd, hwhite⟩ := hx
        have hmem : d ∈ (c :: t).takeWhile (· != '\n') := by
          rw [heq, List.takeWhile_append_of_pos]
          · exact List.mem_append_left _ hd
          · intro d' hd'
            rw [bne_iff_ne]
            rintro rfl
            exact hline hd'
        rw [hw d hmem] at hwhite
        cases hwhite
      | comment hm => cases hm
      | colon hm => cases hm
      | ident hm => cases hm
      | arrow hm => cases hm

theorem spells_behind_text {s : Cursor} (h : Spells .opened s.rest e) (m : Mode) :
    ∃ e', Spells m (trailingText s).2.rest e' := by
  rcases s.trailingToken_cases Kind.text with ⟨hwhite, -, hrest⟩ | ⟨-, -, hrest⟩
  · exact hrest ▸ spells_behind_blanks h hwhite m
  · exact hrest ▸ spells_line_end h m

/-- No piece starts with the head of an arrow. -/
theorem not_spells_head (hm : m.reads = true) : ¬ Spells m ('>' :: t) e := by
  intro h
  rcases h.cases_first with ⟨hnil, -⟩ | ⟨a, b, m', heq, hp, hb⟩
  · cases hnil
  · cases hp with
    | blank _ hc =>
      obtain ⟨rfl, -⟩ := List.cons.inj heq
      cases hc
    | sign hc =>
      obtain ⟨rfl, -⟩ := List.cons.inj heq
      simp at hc
    | ident _ hc =>
      obtain ⟨rfl, -⟩ := List.cons.inj heq
      exact absurd hc (by decide)
    | @arrow _ a _ ha _ =>
      have hall : ∀ a ∈ arrows ++ invalidArrows, a.toList ≠ [] ∧ a.toList.head? ≠ some '>' := by
        decide
      obtain ⟨hne, hhead⟩ := hall a ha
      exact hhead (Spelling.head?_of_cons_eq_append heq hne)
    | @keyword w x hw _ _ _ =>
      have hall : ∀ w ∈ keywords, w.toList ≠ [] ∧ w.toList.head? ≠ some '>' := by decide
      obtain ⟨hne, hhead⟩ := hall w hw
      rw [List.append_assoc] at heq
      exact hhead (Spelling.head?_of_cons_eq_append heq hne)
    | lineFeed => cases heq
    | comment => cases heq
    | colon => cases heq
    | fill => cases hm
    | text => cases hm

/-- A piece that starts with a character of a word is that character, or a keyword with its
text. -/
theorem spells_ident_cases {c : Char} (hm : m.reads = true) (hc : isIdentChar c = true)
    (h : Spells m (c :: t) e) :
    Spells .inside t e ∨ m = .start ∧ ∃ w x b, w ∈ keywords ∧ w ∉ bareKeywords ∧ Filled x ∧
      (∀ d ∈ x.head?, isIdentChar d = false) ∧ c :: t = w.toList ++ (x ++ b) ∧
      Spells .text b e := by
  rcases h.cases_first with ⟨hnil, -⟩ | ⟨a, b, m', heq, hp, hb⟩
  · cases hnil
  · cases hp with
    | ident =>
      obtain ⟨-, rfl⟩ := List.cons.inj heq
      exact .inl hb
    | @keyword w x hw hbare hx hi =>
      rw [List.append_assoc] at heq
      exact .inr ⟨rfl, w, x, b, hw, hbare, hx, hi, heq, hb⟩
    | blank _ hblank =>
      obtain ⟨rfl, -⟩ := List.cons.inj heq
      rw [isIdentChar_of_isWhiteSpace (Cursor.isWhiteSpace_of_isBlankChar hblank)] at hc
      cases hc
    | lineFeed =>
      obtain ⟨rfl, -⟩ := List.cons.inj heq
      exact absurd hc (by decide)
    | comment =>
      obtain ⟨rfl, -⟩ := List.cons.inj heq
      exact absurd hc (by decide)
    | colon =>
      obtain ⟨rfl, -⟩ := List.cons.inj heq
      exact absurd hc (by decide)
    | sign hs =>
      obtain ⟨rfl, -⟩ := List.cons.inj heq
      rcases hs with rfl | rfl
      · exact absurd hc (by decide)
      · exact absurd hc (by decide)
    | @arrow _ a _ ha _ =>
      have hall : ∀ a ∈ arrows ++ invalidArrows,
          a.toList ≠ [] ∧ a.toList.head?.any isIdentChar = false := by decide
      obtain ⟨hne, hhead⟩ := hall a ha
      rw [Spelling.head?_of_cons_eq_append heq hne, Option.any_some, hc] at hhead
      cases hhead
    | fill => cases hm
    | text => cases hm

theorem spells_behind_idents (h : Spells .inside t e) :
    Spells .inside (t.dropWhile isIdentChar) e := by
  induction t with
  | nil => exact h
  | cons c t ih =>
    by_cases hc : isIdentChar c = true
    · rw [List.dropWhile_cons_of_pos hc]
      rcases spells_ident_cases rfl hc h with hrest | ⟨hmode, -⟩
      · exact ih hrest
      · cases hmode
    · rw [List.dropWhile_cons_of_neg hc]
      exact h

/-- A word that is spelled is taken as a whole, and so is the text behind a keyword. -/
theorem spells_behind_word {c : Char} (hm : m.reads = true) (hc : isIdentChar c = true)
    (h : Spells m (c :: t) e) :
    Spells .inside ((c :: t).dropWhile isIdentChar) e ∨
      m = .start ∧ (∃ w ∈ keywords, w ∉ bareKeywords ∧ (c :: t).takeWhile isIdentChar = w.toList) ∧
        Spells .opened ((c :: t).dropWhile isIdentChar) e := by
  rcases spells_ident_cases hm hc h with hrest | ⟨rfl, w, x, b, hw, hbare, hx, hi, heq, hb⟩
  · rw [List.dropWhile_cons_of_pos hc]
    exact .inl (spells_behind_idents hrest)
  · have hword := List.all_eq_true.mp (isIdentChar_of_keyword hw)
    have hstop : x ++ b ≠ [] ∧ ∀ d ∈ (x ++ b).head?, isIdentChar d = false := by
      obtain ⟨d, hd, -⟩ := hx.2
      obtain ⟨first, more, rfl⟩ := List.exists_cons_of_ne_nil (List.ne_nil_of_mem hd)
      exact ⟨by simp, hi⟩
    obtain ⟨first, more, hmore⟩ := List.exists_cons_of_ne_nil hstop.1
    have hfirst : isIdentChar first = false := hstop.2 first (by rw [hmore]; rfl)
    refine .inr ⟨rfl, ⟨w, hw, hbare, ?_⟩, ?_⟩
    · rw [heq, List.takeWhile_append_of_pos hword, hmore, List.takeWhile_cons_of_neg]
      · exact List.append_nil _
      · simp [hfirst]
    · rw [heq, List.dropWhile_append_of_pos hword, hmore, List.dropWhile_cons_of_neg]
      · rw [← hmore]
        exact .cons (.fill hx) hb
      · simp [hfirst]

/-- Of the arrows, only the first one that a text starts with leaves something that is spelled. -/
theorem find?_arrow {line b : Text} {a : String} (ha : a ∈ arrows ++ invalidArrows)
    (hline : a.toList <+: line) (hpre : line <+: a.toList ++ b) (hb : Spells .afterArrow b e) :
    (arrows ++ invalidArrows).find? (fun a => line.startsWith a.toList) = some a := by
  have horder : (arrows ++ invalidArrows).Pairwise fun x y => ¬ x.toList <+: y.toList := by decide
  have hlonger : ∀ x ∈ arrows ++ invalidArrows, ∀ y ∈ arrows ++ invalidArrows,
      x.toList <+: y.toList → x = y ∨ y.toList = x.toList ++ ['>'] := by decide
  cases hfind : (arrows ++ invalidArrows).find? (fun a => line.startsWith a.toList) with
  | none =>
    have := List.find?_eq_none.mp hfind a ha
    exact absurd (List.isPrefixOf_iff_prefix.mpr hline) this
  | some first =>
    obtain ⟨hfirst, before, behind, hsplit, hbefore⟩ := List.find?_eq_some_iff_append.mp hfind
    replace hfirst := List.isPrefixOf_iff_prefix.mp hfirst
    have hmem : a = first ∨ a ∈ behind := by
      rw [hsplit] at ha
      rcases List.mem_append.mp ha with hm | hm
      · have := hbefore a hm
        rw [show line.startsWith a.toList = true from List.isPrefixOf_iff_prefix.mpr hline] at this
        cases this
      · exact List.mem_cons.mp hm
    rcases hmem with rfl | hlater
    · rfl
    · exfalso
      rw [hsplit, List.pairwise_append, List.pairwise_cons] at horder
      have hnot := horder.2.1.1 a hlater
      rcases List.prefix_or_prefix_of_prefix hfirst hline with hp | hp
      · exact hnot hp
      · rcases hlonger a ha first (List.mem_of_find?_eq_some hfind) hp with rfl | hhead
        · exact hnot hp
        · -- the longer arrow ends in a head that the shorter one leaves behind
          obtain ⟨rest, hrest⟩ := hfirst.trans hpre
          rw [hhead, List.append_assoc, List.append_cancel_left_eq] at hrest
          rw [← hrest] at hb
          exact not_spells_head rfl hb

end

/-- The piece that a spelling starts with, told by its first character. -/
theorem spells_cases {m e : Mode} {c : Char} {t : Text} (hm : m.reads = true)
    (h : Spells m (c :: t) e) :
    Cursor.isBlankChar c = true ∧ Spells m t e ∨ c = '\n' ∧ Spells .start t e ∨
      c = '%' ∧ t.head? = some '%' ∨ c = ':' ∧ Spells .opened t e ∨
      m = .afterArrow ∧ (c = '+' ∨ c = '-') ∧ Spells .inside t e ∨ isIdentChar c = true ∨
      ∃ a b, a ∈ arrows ++ invalidArrows ∧ (m = .afterArrow → c ≠ '-') ∧
        a.toList.head? = some c ∧ c :: t = a.toList ++ b ∧ Spells .afterArrow b e := by
  rcases h.cases_first with ⟨hnil, -⟩ | ⟨a, b, m', heq, hp, hb⟩
  · cases hnil
  · cases hp with
    | blank _ hc =>
      obtain ⟨rfl, rfl⟩ := List.cons.inj heq
      exact .inl ⟨hc, hb⟩
    | lineFeed =>
      obtain ⟨rfl, rfl⟩ := List.cons.inj heq
      exact .inr (.inl ⟨rfl, hb⟩)
    | comment =>
      obtain ⟨rfl, rfl⟩ := List.cons.inj heq
      exact .inr (.inr (.inl ⟨rfl, rfl⟩))
    | colon =>
      obtain ⟨rfl, rfl⟩ := List.cons.inj heq
      exact .inr (.inr (.inr (.inl ⟨rfl, hb⟩)))
    | sign hc =>
      obtain ⟨rfl, rfl⟩ := List.cons.inj heq
      exact .inr (.inr (.inr (.inr (.inl ⟨rfl, hc, hb⟩))))
    | ident _ hc =>
      obtain ⟨rfl, -⟩ := List.cons.inj heq
      exact .inr (.inr (.inr (.inr (.inr (.inl hc)))))
    | @arrow _ a _ ha hs =>
      have hne : ∀ a ∈ arrows ++ invalidArrows, a.toList ≠ [] := by decide
      have hhead := Spelling.head?_of_cons_eq_append heq (hne a ha)
      rw [hhead] at hs
      refine .inr (.inr (.inr (.inr (.inr (.inr ⟨a, b, ha, ?_, hhead, heq, hb⟩)))))
      exact fun hmode hc => hs hmode (congrArg some hc)
    | @keyword w x hw _ _ _ =>
      have hword := isIdentChar_of_keyword hw
      have hne : ∀ w ∈ keywords, w.toList ≠ [] := by decide
      rw [List.append_assoc] at heq
      have hhead := Spelling.head?_of_cons_eq_append heq (hne w hw)
      refine .inr (.inr (.inr (.inr (.inr (.inl ?_)))))
      exact List.all_eq_true.mp hword c (List.mem_of_mem_head? hhead)
    | fill => cases hm
    | text => cases hm

section

variable {s : Reader Kind} {c : Char} {rest : Text}

/-- The step reports nothing and leaves something spelled. -/
def Advances (s : Reader Kind) (y : Yield Kind) : Prop :=
  y.errors = [] ∧ ∃ e, Spells (modeOf (s.after y)) y.cursor.rest e

theorem advances_lexeme {kind : Kind} {n : Nat} {e : Mode}
    (h : Spells kind.mode (s.cursor.rest.drop n) e) : Advances s (lexeme kind n s.cursor) := by
  refine ⟨rfl, e, ?_⟩
  rw [modeOf_after_token rfl]
  change Spells kind.mode (s.cursor.skip n).rest e
  rw [Cursor.skip_rest]
  exact h

theorem advances_withTrailingText {tok : Tok} {cursor : Cursor} {e : Mode}
    (h : Spells .opened cursor.rest e) : Advances s (withTrailingText tok cursor) := by
  obtain ⟨e', h'⟩ := spells_behind_text h (modeOf (s.after (withTrailingText tok cursor)))
  exact ⟨rfl, e', h'⟩

theorem advances_word {e : Mode} (hrest : s.cursor.rest = c :: rest) (hc : isIdentChar c = true)
    (h : Spells (modeOf s) (c :: rest) e) : Advances s (word s) := by
  have hword := spells_behind_word (modeOf_reads s) hc h
  have hbehind := s.cursor.skip_takeWhile_rest isIdentChar
  rw [← hrest, ← hbehind] at hword
  unfold word
  dsimp only [Cursor.takeWhile, Cursor.take]
  rw [(List.prefix_iff_eq_take.mp (List.takeWhile_prefix isIdentChar)).symm]
  generalize s.cursor.rest.takeWhile isIdentChar = run at hword ⊢
  split
  · rcases hword with hword | ⟨-, -, hword⟩
    · obtain ⟨e', -, hopened⟩ := graded.spelling_mono hword (Mode.le_opened rfl)
      exact advances_withTrailingText hopened
    · exact advances_withTrailingText hword
  · rename_i hplain
    rcases hword with hword | ⟨hstart, ⟨w, hw, hbare, hrun⟩, -⟩
    · refine ⟨rfl, e, ?_⟩
      rw [modeOf_after_token rfl]
      change Spells (wordKind s (String.ofList run)).mode _ e
      rw [mode_wordKind]
      exact hword
    · -- a keyword at the start of a line is read as one
      exfalso
      apply hplain
      have hkeyword : String.ofList run = w := by rw [hrun, String.ofList_toList]
      have hheader : ∀ w ∈ keywords, headers.contains w = false := by decide
      have hkind : wordKind s w = .keyword := by
        unfold wordKind
        dsimp only
        rw [follows_newline_iff.mpr hstart, hheader w hw]
        simp [hw]
      simp [Token.ofText, hkeyword, hkind, hbare]

theorem lexStep_of_ident (hrest : s.cursor.rest = c :: rest) (hc : isIdentChar c = true) :
    lexStep s = word s := by
  have hsigns : ['\n', '\r', ' ', '\t', '%', ':', '+', '-'].contains c = false :=
    contains_eq_false_of_all (by decide) hc
  simp only [List.contains_cons, List.contains_nil, Bool.or_false, Bool.or_eq_false_iff,
    beq_eq_false_iff_ne, ne_eq] at hsigns
  unfold lexStep
  rw [hrest]
  simp [Cursor.isBlankChar, hsigns, hc]

theorem lexStep_of_arrow {e : Mode} {a : String} {b : Text} (hrest : s.cursor.rest = c :: rest)
    (ha : a ∈ arrows ++ invalidArrows) (hs : modeOf s = .afterArrow → c ≠ '-')
    (hhead : a.toList.head? = some c) (heq : c :: rest = a.toList ++ b)
    (hb : Spells .afterArrow b e) :
    ∃ kind, kind.isArrow = true ∧ lexStep s = lexeme kind a.toList.length s.cursor := by
  have hall : ∀ a ∈ arrows ++ invalidArrows, a.toList.head?.any (['<', '-', '='].contains ·) = true ∧
      a.toList.all (fun c => c != '\n' && c != '\r') = true := by decide
  obtain ⟨hc, hinline⟩ := hall a ha
  rw [hhead, Option.any_some] at hc
  have hsign : ¬ ((c = '+' ∨ c = '-') ∧ s.follows false Kind.isArrow = true) := by
    rintro ⟨rfl | rfl, hfollows⟩
    · cases hc
    · exact hs (follows_arrow_iff.mp hfollows) rfl
  have hpre : a.toList <+: s.cursor.rest := ⟨b, by rw [hrest, heq]⟩
  have hlength : a.toList.length ≤ s.cursor.restOfLine.length := by
    refine s.cursor.inline_length_le hpre fun d hd => ?_
    simpa using List.all_eq_true.mp hinline d hd
  have hline := List.prefix_of_prefix_length_le hpre s.cursor.restOfLine_isPrefix hlength
  have hfind := find?_arrow ha hline (heq ▸ hrest ▸ s.cursor.restOfLine_isPrefix) hb
  cases harrow : arrowAt? s.cursor.restOfLine with
  | none =>
    rw [arrowAt?_find.2 harrow] at hfind
    cases hfind
  | some found =>
    obtain ⟨kind, n⟩ := found
    obtain ⟨hkind, a', ha', rfl⟩ := arrowAt?_find.1 kind n harrow
    rw [ha', Option.some.injEq] at hfind
    refine ⟨kind, hkind, ?_⟩
    rw [← hfind]
    have hc' : c = '<' ∨ c = '-' ∨ c = '=' := by simpa using hc
    unfold lexStep
    rw [hrest]
    dsimp only
    rw [if_neg (c := (c = '+' ∨ c = '-') ∧ s.follows false Kind.isArrow = true) hsign, harrow]
    rcases hc' with rfl | rfl | rfl
    all_goals rfl

/-- A step that starts before something spelled reports nothing and leaves something spelled. -/
theorem lexStep_advances {e : Mode} (hrest : s.cursor.rest = c :: rest)
    (h : Spells (modeOf s) (c :: rest) e) : Advances s (lexStep s) := by
  have hdrop : s.cursor.rest.drop 1 = rest := by rw [hrest]; rfl
  have hnext : s.cursor.next.rest = rest := by rw [Cursor.next_rest, hdrop]
  rcases spells_cases (modeOf_reads s) h with ⟨hc, h'⟩ | ⟨rfl, h'⟩ | ⟨rfl, hsecond⟩ | ⟨rfl, h'⟩ |
    ⟨hmode, hc, h'⟩ | hc | ⟨a, b, ha, hs, hhead, heq, hb⟩
  · have hstep : lexStep s = .nothing s.cursor.next := by
      unfold lexStep
      rw [hrest]
      exact if_pos hc
    rw [hstep]
    refine ⟨rfl, e, ?_⟩
    rw [modeOf_after_nothing rfl]
    change Spells (modeOf s) s.cursor.next.rest e
    rw [hnext]
    exact h'
  · have hstep : lexStep s = lexeme .newline 1 s.cursor := by
      unfold lexStep
      rw [hrest]
      rfl
    rw [hstep]
    exact advances_lexeme (hdrop ▸ h')
  · have hstep : lexStep s = .nothing s.cursor.takeLine.2 := by
      unfold lexStep
      rw [hrest]
      simp [Cursor.isBlankChar, hsecond]
    rw [hstep]
    obtain ⟨e', hend⟩ := spells_line_end h (modeOf s)
    refine ⟨rfl, e', ?_⟩
    rw [modeOf_after_nothing rfl]
    change Spells (modeOf s) s.cursor.takeLine.2.rest e'
    rw [Cursor.takeLine_rest, hrest]
    exact hend
  · have hstep : lexStep s =
        withTrailingText (Token.ofText .colon [':'] s.cursor.place) s.cursor.next := by
      unfold lexStep
      rw [hrest]
      simp [Cursor.isBlankChar]
    rw [hstep]
    exact advances_withTrailingText (hnext ▸ h')
  · have hstep : lexStep s = lexeme .activation 1 s.cursor := by
      unfold lexStep
      rw [hrest]
      have hfollows := follows_arrow_iff.mpr hmode
      rcases hc with rfl | rfl
      · simp [Cursor.isBlankChar, hfollows]
      · simp [Cursor.isBlankChar, hfollows]
    rw [hstep]
    exact advances_lexeme (hdrop ▸ h')
  · rw [lexStep_of_ident hrest hc]
    exact advances_word hrest hc h
  · obtain ⟨kind, hkind, hstep⟩ := lexStep_of_arrow hrest ha hs hhead heq hb
    rw [hstep]
    refine advances_lexeme (e := e) ?_
    rw [hrest, heq, List.drop_left, mode_of_isArrow hkind]
    exact hb

end

/-- What is spelled from the mode of a reader on is read without an error. -/
theorem clean_of_spells {s : Reader Kind} {e : Mode} (h : Spells (modeOf s) s.cursor.rest e) :
    lexStep.Clean s := by
  induction hn : s.cursor.rest.length using Nat.strongRecOn generalizing s e with
  | ind n ih =>
    cases hrest : s.cursor.rest with
    | nil => exact .done hrest
    | cons c rest =>
      obtain ⟨herrors, e', hrest'⟩ := lexStep_advances hrest (hrest ▸ h)
      have hne : s.cursor.rest ≠ [] := by simp [hrest]
      obtain ⟨k, hpos, hmove⟩ := (lexStep_passes s hne).moves
      have hlt : (lexStep s).cursor.rest.length < s.cursor.rest.length := by
        rw [hmove, Cursor.skip_rest, List.length_drop]
        have := List.length_pos_iff.mpr hne
        omega
      exact .more ⟨hne, hlt, herrors, rfl⟩ (ih _ (hn ▸ hlt) hrest' rfl)

end DiagramLint.Sequence
