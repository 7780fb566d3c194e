-- The characters of a pie chart, piece by piece. A piece is what the lexer
-- reads in one step, or what a repair makes of it. Where the pieces of a text
-- follow the readers of a clean scan, the text is read without an error: the
-- lexer keeps step with the old readers, up to where a new title takes the
-- rest of its line.
import DiagramLint.Proofs.Lexing.Spelling
import DiagramLint.Proofs.Pie.Misspellings
import DiagramLint.Proofs.Pie.Reads

namespace DiagramLint.Pie

/-- What a step reads, and what a repair can make of it: a string, a keyword in place of the
characters that a word starts with, and a colon behind a label. -/
inductive Piece : Reader Kind → Text → Reader Kind → Prop where
  | step {s s' : Reader Kind} {x : Text} (hl : lexStep.Leads s s')
    (hx : s.cursor.rest = x ++ s'.cursor.rest) : Piece s x s'
  | string {s s' : Reader Kind} {image : Text} (hl : lexStep.Leads s s')
    (hq : s.cursor.rest.head? = some '"') (hi : Quoted.read image = .closed image) :
    Piece s ('"' :: image) s'
  | keyword {s s' : Reader Kind} {tok : Tok} {k : String} {w : Text} (hl : lexStep.Leads s s')
    (ht : (lexStep s).tokens = [tok]) (htok : tok.kind = .word) (hk : k ∈ keywords)
    (hw : ∀ c ∈ w, isPieWordChar c = true) : Piece s (k.toList ++ w) s'
  | colon {s s' : Reader Kind} (hs : s.follows false (· == .str) = true)
    (hp : s'.previous = s.previous) (hh : s'.headerSeen = s.headerSeen) : Piece s [':', ' '] s'

/-- A text made of pieces that lead from one reader to the other. -/
abbrev Spells : Reader Kind → Text → Reader Kind → Prop := Spelling Piece

section

variable {s s' e r : Reader Kind} {t x : Text}

/-! ## Pieces -/

/-- How a keyword starts. -/
theorem exists_keyword {k : String} (hk : k ∈ keywords) :
    ∃ c more, k.toList = c :: more ∧ (c = 't' ∨ c = 's') ∧
      ∀ d ∈ k.toList, isPieWordChar d = true := by
  have hall : ∀ k ∈ keywords, (k.toList.head? = some 't' ∨ k.toList.head? = some 's') ∧
      k.toList.all isPieWordChar = true := by decide
  obtain ⟨hhead, hchars⟩ := hall k hk
  rcases hhead with hhead | hhead
  · obtain ⟨more, hmore⟩ := List.head?_eq_some_iff.mp hhead
    exact ⟨_, more, hmore, .inl rfl, List.all_eq_true.mp hchars⟩
  · obtain ⟨more, hmore⟩ := List.head?_eq_some_iff.mp hhead
    exact ⟨_, more, hmore, .inr rfl, List.all_eq_true.mp hchars⟩

/-- A piece starts with what the old text goes on with there, or it is a keyword in the place of a
word, or a colon behind a label. -/
theorem Piece.head_cases (h : Piece s x s') :
    ∃ c more, x = c :: more ∧ (s.cursor.rest.head? = some c ∨
      (∃ d ∈ s.cursor.rest.head?, isPieWordChar d = true) ∧ (c = 't' ∨ c = 's') ∨
      c = ':' ∧ startsLine s = false) := by
  cases h with
  | step hl hx =>
    obtain ⟨c, more, hcons, hhead⟩ := leads_eq_cons hl hx
    exact ⟨c, more, hcons, .inl hhead⟩
  | string hl hq hi => exact ⟨_, _, rfl, .inl hq⟩
  | keyword hl ht htok hk hw =>
    obtain ⟨c, more, hcons, hc, -⟩ := exists_keyword hk
    obtain ⟨⟨d, hd, hword⟩, -⟩ := lexStep_word hl ht htok
    exact ⟨c, _, by rw [hcons]; rfl, .inr (.inl ⟨⟨d, hd, hword⟩, hc⟩)⟩
  | colon hs hp hh =>
    refine ⟨_, _, rfl, .inr (.inr ⟨rfl, ?_⟩)⟩
    unfold startsLine
    unfold Reader.follows at hs ⊢
    split at hs
    · cases hs
    · rw [beq_iff_eq.mp hs]
      rfl

theorem Piece.inline (h : Piece s x s') (hs : startsLine s = false) :
    (∃ more, x = '\n' :: more) ∨
      '\n' ∉ x ∧ startsLine s' = false ∧ s'.headerSeen = s.headerSeen := by
  have hstep : lexStep.Leads s s' → s.cursor.rest.head? ≠ some '\n' →
      startsLine s' = false ∧ s'.headerSeen = s.headerSeen := by
    intro hl hne
    obtain ⟨c, rest, hrest⟩ := List.exists_cons_of_ne_nil hl.rest
    rw [hl.after]
    refine (lexStep_took hl hrest).startsLine_after hs ?_
    rintro rfl
    exact hne (by rw [hrest]; rfl)
  cases h with
  | step hl hx =>
    obtain ⟨c, more, hcons, hhead⟩ := leads_eq_cons hl hx
    obtain ⟨step, hreads, -, -⟩ := exists_reads hl hx
    rcases hreads.newline_not_mem with hnl | hinline
    · exact .inl ⟨[], hnl⟩
    · refine .inr ⟨hinline, hstep hl ?_⟩
      rw [hhead]
      rintro hc
      rw [hcons, Option.some.inj hc] at hinline
      exact hinline List.mem_cons_self
  | string hl hq hi =>
    refine .inr ⟨by simpa using (Quoted.read_closed hi).2.1, hstep hl ?_⟩
    rw [hq]
    decide
  | keyword hl ht htok hk hw =>
    obtain ⟨c, more, -, -, hchars⟩ := exists_keyword hk
    obtain ⟨⟨d, hd, hword⟩, -⟩ := lexStep_word hl ht htok
    refine .inr ⟨?_, hstep hl ?_⟩
    · intro hm
      rcases List.mem_append.mp hm with hm | hm
      · exact absurd (hchars _ hm) (by decide)
      · exact absurd (hw _ hm) (by decide)
    · rw [hd]
      intro hd'
      rw [Option.some.inj hd'] at hword
      exact absurd hword (by decide)
  | colon hs' hp hh =>
    refine .inr ⟨by decide, ?_, hh⟩
    rw [← hs, startsLine, startsLine, Reader.follows, Reader.follows, hp]

/-! ## Texts made of pieces -/

/-- Where a run of characters has stopped before the old text, it stops before the new one. -/
theorem stops_of_spells {p : Char → Bool} (hcolon : p ':' = false)
    (hkey : p 't' = true ∨ p 's' = true → ∀ d, isPieWordChar d = true → p d = true)
    (h : Spells s t e) (hs : ∀ c ∈ s.cursor.rest.head?, p c = false) :
    ∀ c ∈ t.head?, p c = false := by
  rcases h.cases_first with ⟨rfl, -⟩ | ⟨x, b, s', rfl, hp, -⟩
  · simp
  · obtain ⟨c, more, rfl, hhead | ⟨⟨d, hd, hword⟩, hc⟩ | ⟨rfl, -⟩⟩ := hp.head_cases
    · simpa using hs c hhead
    · rw [List.cons_append, List.head?_cons]
      rintro c' hc'
      rw [← Option.some.inj hc', ← Bool.not_eq_true]
      intro hpc
      have hstop := hs d hd
      rw [hkey (by rcases hc with rfl | rfl <;> simp [hpc]) d hword] at hstop
      cases hstop
    · simpa using hcolon

/-- At the end of a line the pieces go on, and no header has come until there. -/
theorem spells_line_end (h : Spells s t e) (hs : startsLine s = false) :
    ∃ s', Spells s' (t.dropWhile (· != '\n')) e ∧ s'.headerSeen = s.headerSeen := by
  induction h with
  | nil m => exact ⟨m, .nil m, rfl⟩
  | @cons m₁ m₂ m₃ a b hp hb ih =>
    rcases hp.inline hs with ⟨more, rfl⟩ | ⟨hinline, hline, hheader⟩
    · exact ⟨m₁, .cons hp hb, rfl⟩
    · obtain ⟨s', hspell, hheader'⟩ := ih hline
      refine ⟨s', ?_, hheader'.trans hheader⟩
      rw [List.dropWhile_append_of_pos]
      · exact hspell
      · intro c hc
        rw [bne_iff_ne]
        rintro rfl
        exact hinline hc

theorem blank_or_solid {c : Char} (h : isWhiteSpace c = false) :
    Cursor.isBlankChar c = false ∧ (isWhiteSpace c = true → c = '\n') := by
  refine ⟨?_, fun hw => by rw [h] at hw; cases hw⟩
  rw [← Bool.not_eq_true]
  intro hb
  rw [Cursor.isWhiteSpace_of_isBlankChar hb] at h
  cases h

/-- A piece is a blank, or it starts with a character that is no stray white space. -/
theorem Piece.blank_or (h : Piece s x s') :
    (∃ c, x = [c] ∧ Cursor.isBlankChar c = true) ∨
      ∃ c more, x = c :: more ∧ Cursor.isBlankChar c = false ∧
        (isWhiteSpace c = true → c = '\n') := by
  cases h with
  | step hl hx =>
    obtain ⟨step, hreads, -, -⟩ := exists_reads hl hx
    cases hreads with
    | blank hb => exact .inl ⟨_, rfl, hb⟩
    | newline => exact .inr ⟨_, _, rfl, by decide, fun _ => rfl⟩
    | comment | colon | str => exact .inr ⟨_, _, rfl, blank_or_solid (by decide)⟩
    | @number c x _ hc =>
      refine .inr ⟨_, _, rfl, blank_or_solid ?_⟩
      rw [← Bool.not_eq_true]
      intro hw
      rw [isDigit_of_isWhiteSpace hw, Bool.false_or, Bool.and_eq_true, beq_iff_eq] at hc
      rw [hc.1] at hw
      cases hw
    | word hc =>
      refine .inr ⟨_, _, rfl, blank_or_solid ?_⟩
      have := hc _ List.mem_cons_self
      simp only [isPieWordChar, Bool.and_eq_true, Bool.not_eq_true'] at this
      exact this.1.1
  | string => exact .inr ⟨_, _, rfl, blank_or_solid (by decide)⟩
  | keyword hl ht htok hk hw =>
    obtain ⟨c, more, hcons, hc, -⟩ := exists_keyword hk
    rw [hcons]
    refine .inr ⟨c, _, rfl, blank_or_solid ?_⟩
    rcases hc with rfl | rfl <;> decide
  | colon => exact .inr ⟨_, _, rfl, blank_or_solid (by decide)⟩

/-- No stray white space comes right behind the blanks that a text starts with. -/
theorem not_stray_of_spells (h : Spells s t e) :
    ∀ c ∈ (t.dropWhile Cursor.isBlankChar).head?, isWhiteSpace c = true → c = '\n' := by
  induction h with
  | nil m => simp
  | cons hp hb ih =>
    rcases hp.blank_or with ⟨c, rfl, hc⟩ | ⟨c, more, rfl, hc, hwhite⟩
    · rw [List.singleton_append, List.dropWhile_cons_of_pos hc]
      exact ih
    · rw [List.cons_append, List.dropWhile_cons_of_neg (by simp [hc])]
      rintro c' hc'
      rw [← Option.some.inj hc']
      exact hwhite

/-! ## Keeping step -/

/-- The new reader `r` reads the text `t` as the old reader `s` would: it is as close to the start
of its line, and titles can come where they could, or the line ends here. -/
structure InStep (s r : Reader Kind) (t : Text) : Prop where
  header : r.headerSeen = s.headerSeen
  place : startsLine r = startsLine s ∧ (behindName s = true → behindName r = true) ∨
    ∀ c ∈ t.head?, c = '\n'

/-- Readers behind the same kind of token, or behind none that matters, keep in step. -/
theorem InStep.of_plain (hh : r.headerSeen = s.headerSeen) (hr : startsLine r = false)
    (hs : startsLine s = false) (hb : behindName s = false) : InStep s r t :=
  ⟨hh, .inl ⟨hr.trans hs.symm, fun h => by rw [hb] at h; cases h⟩⟩

/-- Every text shorter than a number that is made of pieces is read without an error. -/
def CleanBelow (n : Nat) : Prop :=
  ∀ {s e r : Reader Kind} {t : Text}, t.length < n → Spells s t e → r.cursor.rest = t →
    InStep s r t → lexStep.Clean r

/-- A new reader that has passed the rest of a line goes on at its end. -/
theorem CleanBelow.line_end {n : Nat} (ih : CleanBelow n) (hn : t.length < n) (h : Spells s t e)
    (hs : startsLine s = false ∨ ∀ c ∈ t.head?, c = '\n')
    (hr : r.cursor.rest = t.dropWhile (· != '\n')) (hh : r.headerSeen = s.headerSeen) :
    lexStep.Clean r := by
  have hlt : (t.dropWhile (· != '\n')).length < n :=
    Nat.lt_of_le_of_lt (List.dropWhile_sublist _).length_le hn
  have hend : ∀ c ∈ (t.dropWhile (· != '\n')).head?, c = '\n' := fun c hc => by
    simpa using head?_dropWhile_stops (· != '\n') t c hc
  rcases hs with hs | hs
  · obtain ⟨s', hspell, hheader⟩ := spells_line_end h hs
    exact ih hlt hspell hr ⟨hh.trans hheader.symm, .inr hend⟩
  · have hself : t.dropWhile (· != '\n') = t := by
      cases t with
      | nil => rfl
      | cons c t => rw [hs c rfl]; rfl
    rw [hself] at hr
    exact ih hn h hr ⟨hh, .inr hs⟩

/-- A line of white space has only blanks, where no stray white space comes behind them. -/
theorem dropWhile_isBlankChar_eq {u : Text}
    (hwhite : ∀ c ∈ u.takeWhile (· != '\n'), isWhiteSpace c = true)
    (hstray : ∀ c ∈ (u.dropWhile Cursor.isBlankChar).head?, isWhiteSpace c = true → c = '\n') :
    u.dropWhile Cursor.isBlankChar = u.dropWhile (· != '\n') := by
  induction u with
  | nil => rfl
  | cons c u ih =>
    by_cases hb : Cursor.isBlankChar c = true
    · have hc := Cursor.ne_newline_of_isBlankChar hb
      rw [List.dropWhile_cons_of_pos hb] at hstray ⊢
      rw [List.dropWhile_cons_of_pos (p := (· != '\n')) hc]
      refine ih (fun d hd => hwhite d ?_) hstray
      rw [List.takeWhile_cons_of_pos (p := (· != '\n')) hc]
      exact List.mem_cons_of_mem c hd
    · rw [List.dropWhile_cons_of_neg hb] at hstray ⊢
      by_cases hc : c = '\n'
      · rw [hc]
        rfl
      · refine absurd (hstray c rfl (hwhite c ?_)) hc
        rw [List.takeWhile_cons_of_pos (by simpa using hc)]
        exact List.mem_cons_self

/-- Behind a word that the new reader takes, and what the old one took along with it. -/
theorem CleanBelow.behind_word {n : Nat} (ih : CleanBelow n) (more : Text) (hn : t.length < n)
    (h : Spells s t e) (hs : startsLine s = false)
    (hh : s.headerSeen = (r.headerSeen || wordKindAhead r == .header))
    (hrest : r.cursor.rest.dropWhile isPieWordChar = more ++ t)
    (hm : (∀ d ∈ more, Cursor.isBlankChar d = true) ∨ Filled more)
    (hplain : wordKindAhead r ≠ .title → more = [] ∧ (behindName s = true →
      (wordKindAhead r == .header || wordKindAhead r == .showData) = true)) :
    lexStep.Clean (r.after (word r)) := by
  obtain ⟨hline, hname, hheader⟩ := after_word r
  by_cases htitle : wordKindAhead r = .title
  · refine ih.line_end hn h (.inl hs) ?_ (hheader.trans hh.symm)
    have hskip := r.cursor.skip_takeWhile_rest isPieWordChar
    rw [hrest] at hskip
    rw [word_title htitle]
    change (trailingText (r.cursor.skip (r.cursor.rest.takeWhile isPieWordChar).length)).2.rest = _
    generalize r.cursor.skip (r.cursor.rest.takeWhile isPieWordChar).length = u at hskip
    have hline : '\n' ∉ more := by
      intro hmem
      rcases hm with hblank | hfilled
      · exact absurd (hblank _ hmem) (by decide)
      · exact hfilled.1 hmem
    have hpast : u.rest.dropWhile (· != '\n') = t.dropWhile (· != '\n') := by
      rw [hskip, List.dropWhile_append_of_pos]
      intro c hc
      rw [bne_iff_ne]
      rintro rfl
      exact hline hc
    rcases trailingText_rest u with ⟨hwhite, hu⟩ | ⟨-, hu⟩
    · -- nothing but blanks is left on the line
      rw [hu, ← hpast]
      refine dropWhile_isBlankChar_eq hwhite ?_
      rw [hskip]
      rcases hm with hblank | ⟨-, c, hc, hsolid⟩
      · rw [List.dropWhile_append_of_pos hblank]
        exact not_stray_of_spells h
      · have hmem : c ∈ u.wholeLine := by
          rw [Cursor.wholeLine, hskip, List.takeWhile_append_of_pos]
          · exact List.mem_append_left _ hc
          · intro d hd
            rw [bne_iff_ne]
            rintro rfl
            exact hline hd
        rw [hwhite c hmem] at hsolid
        cases hsolid
    · rw [hu, hpast]
  · obtain ⟨rfl, hb⟩ := hplain htitle
    exact ih hn h ((rest_after_plain htitle).trans hrest) ⟨hheader.trans hh.symm, .inl
      ⟨hline.trans hs.symm, fun h => by rw [hname]; exact hb h⟩⟩

/-- Where a title can come for the old reader, it can come for the new one, and the word that both
are at is of the same kind or has become a title or `showData`. -/
theorem wordKindAhead_cases (hw : wordAhead r = wordAhead s) (hh : r.headerSeen = s.headerSeen)
    (hl : startsLine r = startsLine s) (hb : behindName s = true → behindName r = true) :
    wordKindAhead r = wordKindAhead s ∨ wordKindAhead s = .word ∧
      (wordKindAhead r = .title ∨ wordKindAhead r = .showData) := by
  have hl' : r.follows true (· == Kind.newline) = s.follows true (· == Kind.newline) := hl
  unfold behindName at hb
  unfold wordKindAhead wordKind
  dsimp only
  rw [hw, hh, hl']
  generalize s.follows true (· == Kind.newline) = line
  generalize s.follows false (fun k => k == Kind.header || k == Kind.showData) = old at hb ⊢
  generalize r.follows false (fun k => k == Kind.header || k == Kind.showData) = new at hb ⊢
  cases old with
  | true =>
    rw [hb rfl]
    exact .inl rfl
  | false =>
    cases new with
    | false => exact .inl rfl
    | true =>
      cases line with
      | true => exact .inl rfl
      | false =>
        simp only [Bool.and_false, Bool.false_and, Bool.or_false, Bool.or_true, Bool.true_and,
          Bool.false_eq_true, if_false, beq_iff_eq]
        by_cases hname : String.ofList (wordAhead s) = "showData"
        · simp [hname]
        · by_cases htitle : String.ofList (wordAhead s) = "title"
          · simp [htitle]
          · simp [hname, htitle]

/-- A new reader is on a clean run if it is behind what can be read before it. -/
theorem Reads.clean {tail : Text} {step : LexStep Kind} (h : Reads x tail step)
    (hr : r.cursor.rest = x ++ tail) (hc : lexStep.Clean (r.after (step r))) : lexStep.Clean r := by
  obtain ⟨c, rest, hrest, htook⟩ := h.exists_took hr
  exact clean_of_took htook hrest hc

/-- Where the old line ends, the new one does. -/
theorem line_end_of_spells (h : Spells s t e) (hs : startsLine s = true)
    (hr : ∀ c ∈ s.cursor.rest.head?, c = '\n') : ∀ c ∈ t.head?, c = '\n' := by
  rcases h.cases_first with ⟨rfl, -⟩ | ⟨x, b, s', rfl, hp, -⟩
  · simp
  · obtain ⟨c, more, rfl, hhead | ⟨⟨d, hd, hword⟩, -⟩ | ⟨-, hline⟩⟩ := hp.head_cases
    · simpa using hr c hhead
    · rw [hr d hd] at hword
      exact absurd hword (by decide)
    · rw [hs] at hline
      cases hline

/-- Readers behind tokens of one kind keep in step. -/
theorem InStep.lexeme (hh : r.headerSeen = s.headerSeen) (kind : Kind) (m n : Nat) :
    InStep (s.after (lexeme kind m s.cursor)) (r.after (lexeme kind n r.cursor)) t :=
  ⟨by simp [Reader.after, Pie.lexeme, Yield.token, hh], .inl ⟨rfl, fun h => h⟩⟩

theorem after_lexeme_rest {kind : Kind} {n : Nat} (hr : r.cursor.rest = x ++ t) (hn : x.length = n) :
    (r.after (lexeme kind n r.cursor)).cursor.rest = t := by
  change (r.cursor.skip n).rest = t
  rw [Cursor.skip_rest, hr, ← hn, List.drop_left]

/-- No word goes on in the new text where none does in the old one. -/
theorem Spells.stops_behind {more : Text} (h : Spells s t e)
    (ht : ∀ d ∈ (more ++ s.cursor.rest).head?, isPieWordChar d = false) :
    ∀ d ∈ (more ++ t).head?, isPieWordChar d = false := by
  cases more with
  | nil => exact stops_of_spells (by decide) (fun _ d hd => hd) h ht
  | cons d more => exact ht

/-- The new reader takes the word that the old one has. -/
theorem CleanBelow.same_word {n : Nat} (ih : CleanBelow n) (hn : t.length < n) (h : Spells s' t e)
    (hs' : s' = s.after (word s)) {more : Text} (hx : s.cursor.rest = x ++ more ++ s'.cursor.rest)
    (hr : r.cursor.rest = x ++ more ++ t) (hc : ∀ d ∈ x, isPieWordChar d = true)
    (hm : (∀ d ∈ more, Cursor.isBlankChar d = true) ∨ Filled more)
    (ht : ∀ d ∈ (more ++ s'.cursor.rest).head?, isPieWordChar d = false)
    (hheader : r.headerSeen = s.headerSeen)
    (hplace : startsLine r = startsLine s ∧ (behindName s = true → behindName r = true)) :
    lexStep.Clean (r.after (word r)) := by
  have ht' := h.stops_behind ht
  have hahead : wordAhead r = x := by
    rw [wordAhead, hr, List.append_assoc, takeWhile_append_of_stops hc ht']
  have hahead' : wordAhead s = x := by
    rw [wordAhead, hx, List.append_assoc, takeWhile_append_of_stops hc ht]
  have hkinds := wordKindAhead_cases (hahead.trans hahead'.symm) hheader hplace.1 hplace.2
  have hsame : (wordKindAhead r == .header) = (wordKindAhead s == .header) := by
    rcases hkinds with heq | ⟨hold, hnew | hnew⟩
    · rw [heq]
    · rw [hold, hnew]
      rfl
    · rw [hold, hnew]
      rfl
  obtain ⟨hline, hname, hseen⟩ := after_word s
  rw [← hs'] at hline hname hseen
  refine ih.behind_word more hn h hline ?_ ?_ hm ?_
  · rw [hseen, hheader, hsame]
  · rw [hr, List.append_assoc, dropWhile_append_of_stops hc ht']
  · intro htitle
    constructor
    · -- the old word is no title, so it has taken nothing along
      have hplain : wordKindAhead s ≠ .title := by
        rcases hkinds with heq | ⟨hold, -⟩
        · rwa [← heq]
        · rw [hold]
          decide
      have hrest := rest_after_plain hplain
      rw [← hs', hx, List.append_assoc, dropWhile_append_of_stops hc ht] at hrest
      exact List.append_left_eq_self.mp hrest.symm
    · rw [hname]
      rcases hkinds with heq | ⟨hold, -⟩
      · rw [heq]
        exact fun h => h
      · rw [hold]
        exact fun h => by cases h

/-- The new reader takes what the old one has. -/
theorem CleanBelow.step {n : Nat} (ih : CleanBelow n) (hn : t.length < n) (h : Spells s' t e)
    (hl : lexStep.Leads s s') (hx : s.cursor.rest = x ++ s'.cursor.rest)
    (hr : r.cursor.rest = x ++ t) (hin : InStep s r (x ++ t)) : lexStep.Clean r := by
  obtain ⟨step, hreads, -, hs'⟩ := exists_reads hl hx
  have hheader := hin.header
  have hplace : ∀ {c more}, x = c :: more → c ≠ '\n' →
      startsLine r = startsLine s ∧ (behindName s = true → behindName r = true) := by
    rintro c more rfl hc
    rcases hin.place with hplace | hline
    · exact hplace
    · exact absurd (hline c rfl) hc
  generalize htail : s'.cursor.rest = tail at hreads
  cases hreads with
  | @blank c _ hb =>
    have hc := Cursor.ne_newline_of_isBlankChar hb
    rw [bne_iff_ne] at hc
    refine Reads.clean (.blank hb) hr (ih hn h ?_ ⟨?_, .inl ?_⟩)
    · change r.cursor.next.rest = t
      rw [Cursor.next_rest, hr]
      rfl
    · simp [hs', Reader.after, Yield.nothing, hheader]
    · rw [hs']
      exact hplace rfl hc
  | newline =>
    exact Reads.clean .newline hr
      (ih hn h (after_lexeme_rest hr rfl) (hs' ▸ InStep.lexeme hheader _ _ _))
  | @comment x _ hx' =>
    refine Reads.clean (.comment hx') hr (ih.line_end hn h ?_ ?_ ?_)
    · by_cases hline : startsLine s' = true
      · refine .inr (line_end_of_spells h hline ?_)
        have hrest : s'.cursor.rest = s.cursor.takeLine.2.rest := by rw [hs']; rfl
        rw [hrest, Cursor.takeLine_rest]
        intro c hc
        simpa using head?_dropWhile_stops (· != '\n') _ c hc
      · exact .inl (Bool.not_eq_true _ ▸ hline)
    · change r.cursor.takeLine.2.rest = _
      rw [Cursor.takeLine_rest, hr, List.dropWhile_append_of_pos]
      intro c hc
      rw [bne_iff_ne]
      rintro rfl
      simp [hx'] at hc
    · simp [hs', Reader.after, Yield.nothing, hheader]
  | colon =>
    exact Reads.clean .colon hr
      (ih hn h (after_lexeme_rest hr rfl) (hs' ▸ InStep.lexeme hheader _ _ _))
  | str hi =>
    exact Reads.clean (.str hi) hr
      (ih hn h (after_lexeme_rest hr rfl) (hs' ▸ InStep.lexeme hheader _ _ _))
  | number hc hd ht =>
    refine Reads.clean (.number hc hd ?_) hr
      (ih hn h (after_lexeme_rest hr rfl) (hs' ▸ InStep.lexeme hheader _ _ _))
    rw [← htail] at ht
    exact stops_of_spells (by decide) (fun h => absurd h (by decide)) h ht
  | @word c x more _ hc hp hd hm ht =>
    have hc' : c ≠ '\n' := by
      rintro rfl
      exact absurd (hc _ List.mem_cons_self) (by decide)
    subst htail
    exact Reads.clean (.word hc hp hd hm (h.stops_behind ht)) hr
      (ih.same_word hn h hs' hx hr hc hm ht hheader (hplace rfl hc'))

theorem after_quote (hl : lexStep.Leads s s') (hq : s.cursor.rest.head? = some '"') :
    ∃ n, s' = s.after (lexeme .str n s.cursor) := by
  obtain ⟨rest, hrest⟩ := List.head?_eq_some_iff.mp hq
  have htook := lexStep_took hl hrest
  rw [hl.after]
  generalize lexStep s = y at htook
  cases htook with
  | blank hb => cases hb
  | newline hn => cases hn
  | comment hc => cases hc.1
  | colon hc => cases hc
  | str => exact ⟨_, rfl⟩
  | number hc => simp at hc
  | word hc => exact absurd hc (by decide)

/-- The only token of a step that is a plain word. -/
theorem lexStep_plain {tok : Tok} (hl : lexStep.Leads s s') (ht : (lexStep s).tokens = [tok])
    (hk : tok.kind = .word) : lexStep s = word s ∧ wordKindAhead s = .word := by
  obtain ⟨c, rest, hrest⟩ := List.exists_cons_of_ne_nil hl.rest
  have htook := lexStep_took hl hrest
  generalize lexStep s = y at htook ht
  cases htook with
  | blank | comment => cases ht
  | newline | colon | str | number =>
    rw [← (List.cons.inj ht).1] at hk
    cases hk
  | word =>
    refine ⟨rfl, ?_⟩
    by_cases htitle : wordKindAhead s = .title
    · rw [word_title htitle] at ht
      rw [← (List.cons.inj ht).1] at hk
      cases hk
    · rw [word_plain htitle] at ht
      rw [← (List.cons.inj ht).1] at hk
      exact hk

/-- The new reader takes the keyword that a word has become the start of. -/
theorem CleanBelow.keyword {n : Nat} {tok : Tok} {k : String} {w : Text} (ih : CleanBelow n)
    (hn : t.length < n) (h : Spells s' t e) (hl : lexStep.Leads s s')
    (ht : (lexStep s).tokens = [tok]) (htok : tok.kind = .word) (hk : k ∈ keywords)
    (hw : ∀ c ∈ w, isPieWordChar c = true) (hr : r.cursor.rest = k.toList ++ w ++ t)
    (hh : r.headerSeen = s.headerSeen) : lexStep.Clean r := by
  obtain ⟨hword, hkind⟩ := lexStep_plain hl ht htok
  obtain ⟨hline, hname, hseen⟩ := after_word s
  have hplain : wordKindAhead s ≠ .title := by rw [hkind]; decide
  have hrest := rest_after_plain hplain
  rw [← hword, ← hl.after] at hline hname hseen hrest
  have hstops : ∀ d ∈ t.head?, isPieWordChar d = false :=
    stops_of_spells (by decide) (fun _ d hd => hd) h (hrest ▸ head?_dropWhile_stops _ _)
  obtain ⟨c, x, hcons, hc, hchars⟩ := exists_keyword hk
  have hall : ∀ d ∈ c :: (x ++ w), isPieWordChar d = true := by
    intro d hd
    rw [← List.cons_append, ← hcons] at hd
    rcases List.mem_append.mp hd with hd | hd
    · exact hchars d hd
    · exact hw d hd
  rw [hcons, List.cons_append] at hr
  have hahead : wordAhead r = c :: (x ++ w) := by
    rw [wordAhead, hr, takeWhile_append_of_stops hall hstops]
  have hheader : (wordKindAhead r == .header) = false := by
    rw [beq_eq_false_iff_ne]
    intro hheader
    rw [wordAhead_of_header hheader, List.cons.injEq] at hahead
    rcases hc with rfl | rfl <;> cases hahead.1
  have hreads : Reads (c :: (x ++ w) ++ []) t word := by
    refine .word hall ?_ ?_ (.inl (by simp)) hstops
    · rintro ⟨rfl, -⟩
      rcases hc with hc | hc <;> cases hc
    · rcases hc with rfl | rfl <;> rfl
  refine hreads.clean (by rw [List.append_nil]; exact hr)
    (ih.behind_word [] hn h hline ?_ ?_ (.inl (by simp)) fun _ => ⟨rfl, ?_⟩)
  · rw [hseen, hkind, hheader, hh]
    rfl
  · rw [hr, dropWhile_append_of_stops hall hstops, List.nil_append]
  · rw [hname, hkind]
    exact fun h => by cases h

theorem cleanBelow (n : Nat) : CleanBelow n := by
  induction n with
  | zero => exact fun hn => absurd hn (Nat.not_lt_zero _)
  | succ n ih =>
    intro s e r t hn h hr hin
    rcases h.cases_first with ⟨rfl, -⟩ | ⟨x, b, s', rfl, hp, hb⟩
    · exact .done hr
    · have hlt : b.length < n := by
        obtain ⟨c, more, rfl, -⟩ := hp.head_cases
        simp at hn
        omega
      have hheader := hin.header
      cases hp with
      | step hl hx => exact ih.step hlt hb hl hx hr hin
      | string hl hq hi =>
        obtain ⟨m, hs'⟩ := after_quote hl hq
        exact Reads.clean (.str hi) hr
          (ih hlt hb (after_lexeme_rest hr rfl) (hs' ▸ InStep.lexeme hheader _ _ _))
      | keyword hl ht htok hk hw => exact ih.keyword hlt hb hl ht htok hk hw hr hheader
      | colon hs hp hh =>
        obtain ⟨hline, hname⟩ : startsLine s' = false ∧ behindName s' = false := by
          unfold startsLine behindName
          unfold Reader.follows at hs ⊢
          rw [hp]
          split at hs
          · cases hs
          · rw [beq_iff_eq.mp hs]
            exact ⟨rfl, rfl⟩
        have hbehind : (r.after (lexeme .colon 1 r.cursor)).cursor.rest = [' '] ++ b :=
          after_lexeme_rest (x := [':']) hr rfl
        refine Reads.clean (x := [':']) .colon hr
          (Reads.clean (x := [' ']) (.blank rfl) hbehind (ih hlt hb ?_ (.of_plain ?_ rfl hline hname)))
        · change (Cursor.next _).rest = b
          rw [Cursor.next_rest, hbehind]
          rfl
        · simp [Reader.after, lexeme, Yield.token, Yield.nothing, hheader, hh]

/-- A text made of pieces from the first reader on is read without an error. -/
theorem clean_of_spells (h : Spells (Reader.ofText x) t e) : lexStep.Clean (Reader.ofText t) :=
  cleanBelow _ (Nat.lt_succ_self _) h rfl ⟨rfl, .inl ⟨rfl, fun h => h⟩⟩

end

end DiagramLint.Pie
