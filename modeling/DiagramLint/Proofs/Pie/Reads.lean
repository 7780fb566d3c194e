-- What the pie chart lexer reads in one step, as characters: those the step
-- takes, and what may stand behind them. A title takes along what its line
-- goes on with, or passes the blanks behind it when that is blank.
import DiagramLint.Proofs.Pie.Steps

namespace DiagramLint.Pie

/-- Whether a reader is at the start of a line, where a header can stand. -/
def startsLine (s : Reader Kind) : Bool := s.follows true (· == .newline)

/-- Whether a reader is behind the header or behind `showData`. -/
def behindName (s : Reader Kind) : Bool := s.follows false fun k => k == .header || k == .showData

variable {s s' r : Reader Kind} {x : Text}

/-! ## Words -/

/-- The characters of the word that a reader is at. -/
def wordAhead (s : Reader Kind) : Text := s.cursor.rest.takeWhile isPieWordChar

/-- The kind of the word that a reader is at. -/
def wordKindAhead (s : Reader Kind) : Kind := wordKind s (String.ofList (wordAhead s))

theorem word_plain (h : wordKindAhead s ≠ .title) :
    word s = { tokens := [Token.ofText (wordKindAhead s) (wordAhead s) s.cursor.place]
               cursor := s.cursor.skip (wordAhead s).length
               isHeader := wordKindAhead s == .header } := by
  have htake : s.cursor.rest.take (s.cursor.rest.takeWhile isPieWordChar).length = wordAhead s :=
    (List.prefix_iff_eq_take.mp (List.takeWhile_prefix _)).symm
  unfold word
  dsimp only [Cursor.takeWhile, Cursor.take]
  rw [htake]
  exact if_neg (by rw [beq_iff_eq]; exact h)

theorem word_title (h : wordKindAhead s = .title) :
    word s =
      { tokens := Token.ofText .title (wordAhead s) s.cursor.place ::
          (trailingText (s.cursor.skip (wordAhead s).length)).1
        cursor := (trailingText (s.cursor.skip (wordAhead s).length)).2 } := by
  have htake : s.cursor.rest.take (s.cursor.rest.takeWhile isPieWordChar).length = wordAhead s :=
    (List.prefix_iff_eq_take.mp (List.takeWhile_prefix _)).symm
  unfold word
  dsimp only [Cursor.takeWhile, Cursor.take]
  rw [htake]
  have hkind : wordKind s (String.ofList (wordAhead s)) = .title := h
  rw [hkind]
  rfl

/-- Behind a word, and behind the text that a title takes along. -/
theorem after_word (s : Reader Kind) :
    startsLine (s.after (word s)) = false ∧
      behindName (s.after (word s)) =
        (wordKindAhead s == .header || wordKindAhead s == .showData) ∧
      (s.after (word s)).headerSeen = (s.headerSeen || wordKindAhead s == .header) := by
  by_cases h : wordKindAhead s = .title
  · have hcases := (s.cursor.skip (wordAhead s).length).trailingToken_cases Kind.text
    rw [word_title h, h]
    rcases hcases with ⟨-, hnone, -⟩ | ⟨-, ⟨text, htext, hkind⟩, -⟩
    · change (trailingText _).1 = [] at hnone
      simp [Reader.after, startsLine, behindName, Reader.follows, hnone, Token.ofText]
    · change (trailingText _).1 = [text] at htext
      simp [Reader.after, startsLine, behindName, Reader.follows, htext, hkind]
      rfl
  · rw [word_plain h]
    refine ⟨?_, rfl, rfl⟩
    change (wordKindAhead s == .newline) = false
    exact beq_eq_false_iff_ne.mpr (wordKind_cases s _).2

theorem rest_after_plain (h : wordKindAhead s ≠ .title) :
    (s.after (word s)).cursor.rest = s.cursor.rest.dropWhile isPieWordChar := by
  rw [word_plain h]
  exact s.cursor.skip_takeWhile_rest isPieWordChar

/-- The text that a title takes along ends with its line, or there is none and only blanks are
passed. -/
theorem trailingText_rest (s : Cursor) :
    (∀ c ∈ s.wholeLine, isWhiteSpace c = true) ∧
        (trailingText s).2.rest = s.rest.dropWhile Cursor.isBlankChar ∨
      Filled s.wholeLine ∧ (trailingText s).2.rest = s.rest.dropWhile (· != '\n') := by
  rcases s.trailingToken_cases Kind.text with ⟨hwhite, -, hrest⟩ | ⟨hfilled, -, hrest⟩
  · exact .inl ⟨hwhite, hrest⟩
  · exact .inr ⟨hfilled, hrest⟩

/-- Behind a word only blanks are passed, or a title takes along what is left of its line. -/
theorem word_rest (s : Reader Kind) :
    ∃ more, s.cursor.rest.dropWhile isPieWordChar = more ++ (word s).cursor.rest ∧
      ((∀ d ∈ more, Cursor.isBlankChar d = true) ∧
          (s.after (word s)).previous =
            some (Token.ofText (wordKindAhead s) (wordAhead s) s.cursor.place) ∨
        Filled more ∧ ∀ c ∈ (word s).cursor.rest.head?, c = '\n') := by
  by_cases h : wordKindAhead s = .title
  · have hbehind := s.cursor.skip_takeWhile_rest isPieWordChar
    rw [word_title h, ← hbehind, h]
    change ∃ more, (s.cursor.skip (wordAhead s).length).rest = _ ∧ _
    generalize s.cursor.skip (wordAhead s).length = u
    rcases u.trailingToken_cases Kind.text with ⟨-, hnone, hrest⟩ | ⟨hfilled, -, hrest⟩
    · change (trailingText u).1 = [] at hnone
      change (trailingText u).2.rest = _ at hrest
      refine ⟨u.rest.takeWhile Cursor.isBlankChar, ?_,
        .inl ⟨fun d hd => List.mem_takeWhile_imp hd, ?_⟩⟩
      · rw [hrest, List.takeWhile_append_dropWhile]
      · simp [Reader.after, hnone]
    · change (trailingText u).2.rest = _ at hrest
      refine ⟨u.wholeLine, ?_, .inr ⟨hfilled, ?_⟩⟩
      · rw [hrest, Cursor.wholeLine, List.takeWhile_append_dropWhile]
      · rw [hrest]
        intro c hc
        simpa using Cursor.head?_of_dropWhile (y := []) (List.append_nil _).symm hc
  · refine ⟨[], (rest_after_plain h).symm, .inl ⟨by simp, ?_⟩⟩
    rw [word_plain h]
    rfl

theorem wordAhead_of_header (h : wordKindAhead s = .header) : wordAhead s = ['p', 'i', 'e'] := by
  unfold wordKindAhead wordKind at h
  dsimp only at h
  split at h
  · rename_i hheader
    simp only [Bool.and_eq_true] at hheader
    exact eq_pie (by simpa using hheader.2)
  · split at h
    · cases h
    · split at h <;> cases h

/-- A word is a header at the start of a line only. -/
theorem wordKindAhead_ne_header (h : startsLine s = false) : wordKindAhead s ≠ .header := by
  have hline : s.follows true (· == Kind.newline) = false := h
  unfold wordKindAhead wordKind
  dsimp only
  rw [hline]
  simp only [Bool.and_false, Bool.false_and, Bool.false_or, Bool.false_eq_true, if_false]
  split
  · decide
  · split <;> decide

/-! ## Steps -/

theorem Took.startsLine_after {c : Char} {rest : Text} {y : Yield Kind} (h : Took s c rest y)
    (hs : startsLine s = false) (hc : c ≠ '\n') :
    startsLine (s.after y) = false ∧ (s.after y).headerSeen = s.headerSeen := by
  cases h with
  | blank | comment => exact ⟨hs, by simp [Reader.after, Yield.nothing]⟩
  | newline hn => exact absurd hn hc
  | colon | str | number => exact ⟨rfl, by simp [Reader.after, lexeme, Yield.token]⟩
  | word =>
    obtain ⟨hline, -, hheader⟩ := after_word s
    refine ⟨hline, ?_⟩
    rw [hheader, beq_eq_false_iff_ne.mpr (wordKindAhead_ne_header hs), Bool.or_false]

/-- The characters that one step reads, those left behind them, and the step. A word can take more
characters of its line along. -/
inductive Reads : Text → Text → LexStep Kind → Prop where
  | blank {c : Char} {tail : Text} (hb : Cursor.isBlankChar c = true) :
    Reads [c] tail fun s => .nothing s.cursor.next
  | newline {tail : Text} : Reads ['\n'] tail fun s => lexeme .newline 1 s.cursor
  | comment {x tail : Text} (hx : '\n' ∉ x) :
    Reads ('%' :: '%' :: x) tail fun s => .nothing s.cursor.takeLine.2
  | colon {tail : Text} : Reads [':'] tail fun s => lexeme .colon 1 s.cursor
  | str {image tail : Text} (hi : Quoted.read image = .closed image) :
    Reads ('"' :: image) tail fun s => lexeme .str (image.length + 1) s.cursor
  | number {c : Char} {x tail : Text}
    (hc : (c.isDigit || (c == '-' && x.head?.any Char.isDigit)) = true)
    (hx : ∀ d ∈ x, isNumberChar d = true) (ht : ∀ d ∈ tail.head?, isNumberChar d = false) :
    Reads (c :: x) tail fun s => lexeme .number (x.length + 1) s.cursor
  | word {c : Char} {x more tail : Text} (hc : ∀ d ∈ c :: x, isPieWordChar d = true)
    (hp : ¬ (c = '%' ∧ x.head? = some '%'))
    (hd : (c.isDigit || (c == '-' && x.head?.any Char.isDigit)) = false)
    (hm : (∀ d ∈ more, Cursor.isBlankChar d = true) ∨ Filled more)
    (ht : ∀ d ∈ (more ++ tail).head?, isPieWordChar d = false) :
    Reads (c :: x ++ more) tail word

theorem isNumberChar_of_isDigit {c : Char} (h : c.isDigit = true) : isNumberChar c = true := by
  simp [isNumberChar, h]

theorem isPieWordChar_of_isDigit {c : Char} (h : c.isDigit = true) : isPieWordChar c = true := by
  have hwhite : isWhiteSpace c = false := by
    rw [← Bool.not_eq_true]
    intro hw
    rw [isDigit_of_isWhiteSpace hw] at h
    cases h
  have hne : c ≠ ':' ∧ c ≠ '"' := by
    constructor
    all_goals
      rintro rfl
      cases h
  simp [isPieWordChar, hwhite, hne]

theorem any_isDigit_append {p : Char → Bool} {a b : Text} (hb : ∀ d ∈ b.head?, p d = false)
    (hp : ∀ d, d.isDigit = true → p d = true) :
    (a ++ b).head?.any Char.isDigit = a.head?.any Char.isDigit := by
  cases a with
  | nil =>
    cases b with
    | nil => rfl
    | cons d b =>
      have : d.isDigit = false := by
        rw [← Bool.not_eq_true]
        intro hd
        have hstop := hb d rfl
        rw [hp d hd] at hstop
        cases hstop
      simp [this]
  | cons d a => rfl

theorem skip_next_rest (s : Cursor) (n : Nat) :
    s.rest = s.rest.take n ++ (s.skip n).rest := by
  rw [Cursor.skip_rest, List.take_append_drop]

/-- What a reader takes of its text is one of these. -/
theorem Took.reads {c : Char} {rest : Text} {y : Yield Kind} (h : Took s c rest y)
    (hrest : s.cursor.rest = c :: rest) (hx : s.cursor.rest = x ++ y.cursor.rest) :
    ∃ step, Reads x y.cursor.rest step ∧ y = step s := by
  have hself : ∀ {z}, s.cursor.rest = z ++ y.cursor.rest → x = z := fun h =>
    List.append_cancel_right (hx.symm.trans h)
  cases h with
  | blank hb =>
    rw [hself (z := [c]) (by rw [hrest]; simp [Yield.nothing, Cursor.next_rest, hrest])]
    exact ⟨_, .blank hb, rfl⟩
  | newline hn =>
    rw [hself (skip_next_rest s.cursor 1), hrest, hn]
    exact ⟨_, .newline, rfl⟩
  | comment hc =>
    obtain ⟨rfl, hnext⟩ := hc
    obtain ⟨more, rfl⟩ := List.head?_eq_some_iff.mp hnext
    have htake : s.cursor.rest.takeWhile (· != '\n') =
        '%' :: '%' :: more.takeWhile (· != '\n') := by
      rw [hrest]
      rfl
    rw [hself (z := '%' :: '%' :: more.takeWhile (· != '\n'))]
    · refine ⟨_, .comment ?_, rfl⟩
      intro hm
      exact absurd (List.mem_takeWhile_imp hm) (by decide)
    · rw [← htake]
      change _ = _ ++ s.cursor.takeLine.2.rest
      rw [Cursor.takeLine_rest, List.takeWhile_append_dropWhile]
  | colon hc =>
    rw [hself (skip_next_rest s.cursor 1), hrest, hc]
    exact ⟨_, .colon, rfl⟩
  | @str image hc hi =>
    have himage := (Quoted.read_closed hi).1
    have hclosed := Quoted.read_closed_append hi []
    rw [List.append_nil] at hclosed
    rw [hself (skip_next_rest s.cursor (image.length + 1)), hrest, hc, List.take_succ_cons,
      ← List.prefix_iff_eq_take.mp himage]
    exact ⟨_, .str hclosed, rfl⟩
  | number hc =>
    have hrun := List.prefix_iff_eq_take.mp (List.takeWhile_prefix (l := rest) isNumberChar)
    have hstop := head?_dropWhile_stops isNumberChar rest
    have htail := s.cursor.next.skip_takeWhile_rest isNumberChar
    rw [Cursor.next_rest, hrest] at htail
    rw [hself (skip_next_rest s.cursor _), hrest, List.take_succ_cons, ← hrun]
    refine ⟨_, .number ?_ (fun d hd => List.mem_takeWhile_imp hd) (htail ▸ hstop), rfl⟩
    rwa [← List.takeWhile_append_dropWhile (p := isNumberChar) (l := rest),
      any_isDigit_append hstop fun d => isNumberChar_of_isDigit] at hc
  | word hc hp hd =>
    obtain ⟨more, hmore, hm⟩ := word_rest s
    have hstop := head?_dropWhile_stops isPieWordChar rest
    have hword : wordAhead s = c :: rest.takeWhile isPieWordChar := by
      rw [wordAhead, hrest, List.takeWhile_cons_of_pos hc]
    have hbehind : s.cursor.rest.dropWhile isPieWordChar = rest.dropWhile isPieWordChar := by
      rw [hrest, List.dropWhile_cons_of_pos hc]
    rw [hbehind] at hmore
    rw [← List.takeWhile_append_dropWhile (p := isPieWordChar) (l := rest)] at hp hd
    rw [any_isDigit_append hstop fun d => isPieWordChar_of_isDigit] at hd
    rw [head?_takeWhile_append hstop (by decide)] at hp
    rw [hself (z := wordAhead s ++ more)]
    · rw [hword]
      refine ⟨_, .word ?_ hp hd (hm.imp And.left And.left) (hmore ▸ hstop), rfl⟩
      intro d hd
      rcases List.mem_cons.mp hd with rfl | hd
      · exact hc
      · exact List.mem_takeWhile_imp hd
    · rw [List.append_assoc, ← hmore, ← hbehind, wordAhead, List.takeWhile_append_dropWhile]

/-- A reader takes what can be read before it. -/
theorem Reads.exists_took {tail : Text} {step : LexStep Kind} (h : Reads x tail step)
    (hr : r.cursor.rest = x ++ tail) :
    ∃ c rest, r.cursor.rest = c :: rest ∧ Took r c rest (step r) := by
  cases h with
  | blank hb => exact ⟨_, _, hr, .blank hb⟩
  | newline => exact ⟨_, _, hr, .newline rfl⟩
  | comment hx => exact ⟨_, _, hr, .comment ⟨rfl, rfl⟩⟩
  | colon => exact ⟨_, _, hr, .colon rfl⟩
  | str hi => exact ⟨_, _, hr, .str rfl (Quoted.read_closed_append hi tail)⟩
  | @number c x tail hc hx ht =>
    have hrun := takeWhile_append_of_stops hx ht
    rw [← any_isDigit_append ht fun d => isNumberChar_of_isDigit] at hc
    have htook : Took r c (x ++ tail) _ := .number hc
    rw [hrun] at htook
    exact ⟨_, _, hr, htook⟩
  | @word c x more tail hc hp hd hm ht =>
    refine ⟨c, x ++ (more ++ tail), by rw [hr]; simp, .word (hc c List.mem_cons_self) ?_ ?_⟩
    · rwa [head?_takeWhile_append ht (by decide)]
    · rwa [any_isDigit_append ht fun d => isPieWordChar_of_isDigit]

/-- A string or a word ends its line only with a line feed of its own. -/
theorem Reads.newline_not_mem {tail : Text} {step : LexStep Kind} (h : Reads x tail step) :
    x = ['\n'] ∨ '\n' ∉ x := by
  cases h with
  | blank hb =>
    right
    have := Cursor.ne_newline_of_isBlankChar hb
    rw [bne_iff_ne] at this
    simpa using fun h => this h.symm
  | newline => exact .inl rfl
  | comment hx => exact .inr (by simpa using hx)
  | colon => exact .inr (by decide)
  | str hi => exact .inr (by simpa using (Quoted.read_closed hi).2.1)
  | number hc hx =>
    right
    intro hm
    rcases List.mem_cons.mp hm with rfl | hm
    · simp at hc
    · exact absurd (hx _ hm) (by decide)
  | word hc hp hd hm =>
    right
    intro hmem
    rcases List.mem_append.mp hmem with hmem | hmem
    · exact absurd (hc _ hmem) (by decide)
    · rcases hm with hblank | hfilled
      · exact absurd (hblank _ hmem) (by decide)
      · exact hfilled.1 hmem

/-- What a step of the scan reads, and the reader behind it. -/
theorem exists_reads (hl : lexStep.Leads s s') (hx : s.cursor.rest = x ++ s'.cursor.rest) :
    ∃ step, Reads x s'.cursor.rest step ∧ lexStep s = step s ∧ s' = s.after (step s) := by
  obtain ⟨c, rest, hrest⟩ := List.exists_cons_of_ne_nil hl.rest
  have hafter := hl.after
  obtain ⟨step, hreads, hstep⟩ :=
    (lexStep_took hl hrest).reads hrest (by rw [hx, hafter]; rfl)
  refine ⟨step, ?_, hstep, by rw [hafter, hstep]⟩
  rw [hafter]
  exact hreads

theorem leads_eq_cons (hl : lexStep.Leads s s') (hx : s.cursor.rest = x ++ s'.cursor.rest) :
    ∃ c more, x = c :: more ∧ s.cursor.rest.head? = some c := by
  cases x with
  | nil =>
    have hlt := hl.length_lt
    rw [hx] at hlt
    exact absurd hlt (Nat.lt_irrefl _)
  | cons c more => exact ⟨c, more, rfl, by rw [hx]; rfl⟩

end DiagramLint.Pie
