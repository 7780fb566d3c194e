-- Rows that differ in an arrow. A wrong arrow behind the sender of a message
-- can give way to the right one: the tokens of the row stay the same up to
-- the arrow, and so do the blocks of the diagram and the ends that it misses.
import DiagramLint.Proofs.Sequence.Heading
import DiagramLint.Proofs.Sequence.Moves

namespace DiagramLint

namespace Sequence

open Text

/-! ## Missing ends -/

/-- The errors of a diagram are missing ends only, and so many of them. -/
def MissesEnds (ts : Toks) (n : Nat) : Prop :=
  (∀ e ∈ (parse ts).errors, e.missingEnd?.isSome = true) ∧ (parse ts).errors.length = n

section

variable {t post : Text} {gap rest : Toks} {header : Tok}

/-- The errors of a diagram: those of its statements and their nesting, and the blocks left open,
which are reported where the text ends. -/
theorem HasPage.exists_eof (h : HasPage t post gap rest header) :
    Terminated .eof rest ∧ ∃ eof, (tokenize t).tokens.getLast? = some eof ∧ eof.kind = .eof ∧
      (parse (tokenize t).tokens).errors =
        (Nesting.run Statement.block {} (statements rest).1).2 ++
          unclosed (Nesting.run Statement.block {} (statements rest).1).1.blocks [eof] := by
  have hskip : (tokenize t).tokens.dropWhile (·.kind == .newline) = header :: rest := by
    rw [h.tokens]
    exact dropWhile_append_cons (fun x hm => beq_iff_eq.mpr (h.gap_newline x hm))
      (by rw [h.header_kind]; rfl)
  have hterm : Terminated .eof rest := by
    have hall := terminated_tokenize t
    rw [h.tokens] at hall
    exact hall.of_append.tail (by simp [h.header_kind])
  have hparse := parse_of_header hskip h.header_kind
  rw [statements_left hterm] at hparse
  refine ⟨hterm, ?_⟩
  obtain ⟨body, eof, hbody, heof, -⟩ := hterm
  refine ⟨eof, ?_, heof, ?_⟩
  · rw [h.tokens, hbody, ← List.cons_append, ← List.append_assoc, List.getLast?_concat]
  · rw [hparse, hbody, List.getLast?_concat]
    rfl

/-- Only ends are missing exactly when the rows are fine and run through, and as many as then are
open. -/
theorem HasPage.missesEnds_iff (h : HasPage t post gap rest header) {n : Nat} :
    MissesEnds (tokenize t).tokens n ↔ OnPage RowFine (some headerToken) post.rows ∧
      ∃ around, BlockMove.run (pageMoves (some headerToken) post.rows) [] = some around ∧
        around.length = n := by
  obtain ⟨hterm, eof, -, -, herrors⟩ := h.exists_eof
  have hpage := nesting_page_iff hterm h.shapes fun x hx => newline_not_mem_rows hx
  have hown := Nesting.run_errors Statement.block {} (statements_miss_no_end rest)
  rw [MissesEnds, herrors]
  generalize Nesting.run Statement.block {} (statements rest).1 = result at hpage hown
  obtain ⟨nesting, errors⟩ := result
  dsimp only at hpage hown ⊢
  have hopen : (unclosed nesting.blocks [eof]).length = (openKeywords nesting).length := by
    simp [unclosed, openKeywords]
  constructor
  · rintro ⟨hall, hlength⟩
    have hnone : errors = [] := by
      refine List.eq_nil_iff_forall_not_mem.mpr fun e he => ?_
      have := hall e (List.mem_append_left _ he)
      rw [hown e he] at this
      cases this
    obtain ⟨hfine, hrun⟩ := (hpage (openKeywords nesting)).mp ⟨hnone, rfl⟩
    refine ⟨hfine, _, hrun, ?_⟩
    rw [← hlength, hnone, List.nil_append, hopen]
  · rintro ⟨hfine, around, hrun, rfl⟩
    obtain ⟨rfl, rfl⟩ := (hpage around).mpr ⟨hfine, hrun⟩
    refine ⟨?_, by rw [List.nil_append, hopen]⟩
    intro e he
    obtain ⟨block, -, rfl⟩ := List.mem_map.mp he
    rfl

end

/-! ## Rows alike -/

/-- Two rows behind a token with the same tokens up to arrows, both with lexical errors or
neither. -/
structure RowLike (previous : Option Tok) (x x' : Text) : Prop where
  shapes : AllLike (rowShapes previous x) (rowShapes previous x')
  clean : RowClean previous x ↔ RowClean previous x'

/-- Rows alike one by one, the first ones as rows behind a token and the others as lines. -/
inductive PageLike (previous : Option Tok) : List Text → List Text → Prop where
  | rows {x x' : Text} {below below' : List Text} (first : RowLike previous x x')
    (others : List.Forall₂ (RowLike none) below below') :
    PageLike previous (x :: below) (x' :: below')

section

variable {previous : Option Tok} {x y : Text} {rs rs' rs'' : List Text}

theorem RowLike.refl (previous : Option Tok) (x : Text) : RowLike previous x x :=
  ⟨.refl _, Iff.rfl⟩

instance : IsTrans (Kind × String) Like where
  trans := by
    rintro a b c (rfl | ⟨ha, hb⟩) hbc
    · exact hbc
    · rcases hbc with rfl | ⟨-, hc⟩
      · exact .inr ⟨ha, hb⟩
      · exact .inr ⟨ha, hc⟩

instance isTrans_forall₂ {α : Type} (R : α → α → Prop) [IsTrans α R] :
    IsTrans (List α) (List.Forall₂ R) where
  trans := by
    intro xs ys zs h h'
    induction h generalizing zs with
    | nil => exact h'
    | cons hab _ ih =>
      obtain _ | ⟨hbc, hrest⟩ := h'
      exact .cons (IsTrans.trans _ _ _ hab hbc) (ih _ hrest)

instance (previous : Option Tok) : IsTrans Text (RowLike previous) where
  trans _ _ _ h h' := ⟨IsTrans.trans _ _ _ h.shapes h'.shapes, h.clean.trans h'.clean⟩

theorem PageLike.refl (previous : Option Tok) (hne : rs ≠ []) : PageLike previous rs rs := by
  obtain ⟨x, below, rfl⟩ := List.exists_cons_of_ne_nil hne
  exact .rows (.refl _ _) (List.forall₂_same.mpr fun _ _ => .refl _ _)

theorem PageLike.trans (h : PageLike previous rs rs') (h' : PageLike previous rs' rs'') :
    PageLike previous rs rs'' := by
  obtain ⟨first, others⟩ := h
  obtain ⟨first', others'⟩ := h'
  exact .rows (IsTrans.trans _ _ _ first first') (IsTrans.trans _ _ _ others others')

/-- What holds of rows holds of rows alike. -/
theorem PageLike.onPage {P : Option Tok → Text → Prop}
    (hP : ∀ {previous x x'}, RowLike previous x x' → P previous x → P previous x')
    (h : PageLike previous rs rs') (hrs : OnPage P previous rs) : OnPage P previous rs' := by
  obtain ⟨first, others⟩ := h
  obtain ⟨hfirst, hothers⟩ := hrs
  refine ⟨hP first hfirst, ?_⟩
  clear first hfirst
  induction others with
  | nil => exact hothers
  | cons hab _ ih =>
    obtain ⟨ha, hrest⟩ := List.forall_mem_cons.mp hothers
    exact List.forall_mem_cons.mpr ⟨hP hab ha, ih hrest⟩

theorem RowLike.fine (h : RowLike previous x y) (hx : RowFine previous x) : RowFine previous y := by
  rcases hx with hnone | ⟨ts, event, hshapes, hline⟩
  · left
    have hlike := h.shapes
    rw [hnone] at hlike
    exact List.forall₂_nil_left_iff.mp hlike
  · right
    -- tokens with the shapes of the other row, wherever they stand
    let ts' : Toks := (rowShapes previous y).map fun shape => ⟨shape.1, shape.2, 0, 0⟩
    have hts' : ts'.map Token.shape = rowShapes previous y := by
      rw [List.map_map]
      exact List.map_id _
    have hlike : TokensLike ts ts' :=
      tokensLike_iff.mpr (by rw [hts', hshapes]; exact h.shapes)
    obtain ⟨event', hline'⟩ := isLine_like hline hlike
    exact ⟨ts', event', hts', hline'⟩

theorem PageLike.moves (h : PageLike previous rs rs') :
    pageMoves previous rs' = pageMoves previous rs := by
  obtain ⟨first, others⟩ := h
  rw [pageMoves, pageMoves, shapeMove_like first.shapes]
  congr 1
  induction others with
  | nil => rfl
  | cons hab _ ih =>
    rw [List.map_cons, List.map_cons, ih, lineMove, lineMove, shapeMove_like hab.shapes]

end

/-! ## A message up to its arrow -/

theorem lineRest_append {a : Text} (hn : '\n' ∉ a) (hr : a.getLast? ≠ some '\r') (x : Text) :
    Cursor.lineRest (a ++ x) = a ++ Cursor.lineRest x := by
  have hall : ∀ c ∈ a, (c != '\n') = true := by
    intro c hc
    rw [bne_iff_ne]
    rintro rfl
    exact hn hc
  rw [Cursor.lineRest, List.takeWhile_append_of_pos hall, Cursor.lineRest]
  unfold dropEndWhile
  rw [List.reverse_append, List.dropWhile_append]
  split
  · rename_i hempty
    rw [List.isEmpty_iff.mp hempty, List.reverse_nil, List.append_nil]
    rcases List.eq_nil_or_concat a with rfl | ⟨init, c, rfl⟩
    · rfl
    · rw [List.concat_eq_append, List.getLast?_concat] at hr
      have hc : (c == '\r') = false := beq_eq_false_iff_ne.mpr fun h => hr (by rw [h])
      rw [List.concat_eq_append, List.reverse_append, List.reverse_singleton, List.singleton_append,
        List.dropWhile_cons_of_neg (by simp [hc]), ← List.singleton_append, List.reverse_append,
        List.reverse_reverse, List.reverse_singleton]
  · rw [List.reverse_append, List.reverse_reverse]

/-- A right arrow is read as such, whatever comes behind it. -/
theorem arrowAt?_right (x : Text) : arrowAt? ("->>".toList ++ x) = some (.arrow, 3) := by
  rfl

/-- A wrong arrow is read as such in front of anything but another of its signs. -/
theorem arrowAt?_wrong {a : String} (ha : a ∈ invalidArrows) {x : Text} (hx : x.head? ≠ some '>') :
    arrowAt? (a.toList ++ x) = some (.invalidArrow, a.length) := by
  simp only [invalidArrows, List.mem_cons, List.not_mem_nil, or_false] at ha
  rcases ha with rfl | rfl | rfl
  · rfl
  · rfl
  · cases x with
    | nil => rfl
    | cons c x =>
      have hc : c ≠ '>' := fun h => hx (by rw [h]; rfl)
      simp [arrowAt?, arrows, invalidArrows, startsWith, hc.symm]

/-- The sender of a message on its row: blanks around a word that is no keyword there. -/
structure Sender (previous : Option Tok) (lead word gap : Text) : Prop where
  lead_blank : ∀ c ∈ lead, Cursor.isBlankChar c = true
  word_ne_nil : word ≠ []
  word_ident : ∀ c ∈ word, isIdentChar c = true
  gap_blank : ∀ c ∈ gap, Cursor.isBlankChar c = true
  plain : modeOf (rowReader previous []) = .start → String.ofList word ∉ keywords

section

variable {previous : Option Tok} {lead word gap x : Text} {s : Reader Kind}

/-- A word that is no keyword is its token. -/
theorem lexStep_plain {w x : Text} (hs : s.cursor.rest = w ++ x) (hne : w ≠ [])
    (hw : ∀ c ∈ w, isIdentChar c = true) (hx : ∀ c ∈ x.head?, isIdentChar c = false)
    (hseen : s.headerSeen = true) (hplain : modeOf s = .start → String.ofList w ∉ keywords) :
    (lexStep s).lexed = ⟨[Token.ofText .ident w s.cursor.place], []⟩ ∧
      (s.after (lexStep s)).cursor.rest = x ∧ modeOf (s.after (lexStep s)) = .inside ∧
      (s.after (lexStep s)).headerSeen = true := by
  have htake : s.cursor.rest.takeWhile isIdentChar = w := by
    rw [hs, List.takeWhile_append_of_pos hw]
    cases x with
    | nil => exact List.append_nil w
    | cons c x => rw [List.takeWhile_cons_of_neg (by simp [hx c rfl]), List.append_nil]
  obtain ⟨c, rest, hcons⟩ := List.exists_cons_of_ne_nil hne
  have hstep : lexStep s = word s :=
    lexStep_of_ident (by rw [hs, hcons]; rfl) (hw c (by rw [hcons]; exact List.mem_cons_self))
  have hkind : wordKind s (String.ofList w) = .ident := by
    unfold wordKind
    rw [hseen, if_neg (by simp)]
    refine if_neg fun hword => ?_
    rw [Bool.and_eq_true, follows_newline_iff, List.contains_iff_mem] at hword
    exact hplain hword.1 hword.2
  have hyield : word s =
      ⟨[Token.ofText .ident w s.cursor.place], [], s.cursor.skip w.length, false⟩ := by
    unfold word
    dsimp only [Cursor.takeWhile, Cursor.take]
    rw [htake, hs, List.take_left, hkind]
    rfl
  rw [hstep, hyield]
  refine ⟨rfl, ?_, (modeOf_after_token rfl).trans rfl, ?_⟩
  · change (s.cursor.skip w.length).rest = x
    rw [Cursor.skip_rest, hs, List.drop_left]
  · rw [Reader.after, hseen]
    rfl

/-- A sender is read as its word, and nothing else is. -/
theorem run_sender {r : Text} (h : Sender previous lead word gap) (hseen : s.headerSeen = true)
    (hmode : modeOf s = modeOf (rowReader previous []))
    (hs : s.cursor.rest = lead ++ (word ++ (gap ++ r)))
    (hr : ∀ c ∈ r.head?, isIdentChar c = false) :
    ∃ tok e, (Scan.run lexStep .eof s).lexed =
        ⟨[tok], []⟩ ++ (Scan.run lexStep .eof e).lexed ∧
      tok.shape = (.ident, String.ofList word) ∧ e.cursor.rest = r ∧ modeOf e = .inside ∧
      e.headerSeen = true := by
  obtain ⟨s₁, hrun₁, hrest₁, hmode₁, hseen₁⟩ := run_blanks hs h.lead_blank
  have hgap : ∀ c ∈ (gap ++ r).head?, isIdentChar c = false := by
    intro c hc
    cases gap with
    | nil => exact hr c hc
    | cons d gap =>
      rw [← Option.some.inj hc]
      exact isIdentChar_of_isWhiteSpace
        (Cursor.isWhiteSpace_of_isBlankChar (h.gap_blank d List.mem_cons_self))
  obtain ⟨hlexed, hrest₂, hmode₂, hseen₂⟩ := lexStep_plain hrest₁ h.word_ne_nil h.word_ident hgap
    (hseen₁.trans hseen) (fun hstart => h.plain (by rw [← hmode, ← hmode₁, hstart]))
  obtain ⟨e, hrun₃, hrest₃, hmode₃, hseen₃⟩ := run_blanks hrest₂ h.gap_blank
  have hne : s₁.cursor.rest ≠ [] := by
    rw [hrest₁]
    exact List.append_ne_nil_of_left_ne_nil h.word_ne_nil _
  refine ⟨Token.ofText .ident word s₁.cursor.place, e, ?_, rfl, hrest₃, hmode₃.trans hmode₂,
    hseen₃.trans hseen₂⟩
  rw [hrun₁, run_cons hne, hlexed, hrun₃]

/-- An arrow is read behind a sender. -/
theorem run_arrow {a : Text} {kind : Kind} (hs : s.cursor.rest = a ++ x)
    (hmode : modeOf s = .inside) (hseen : s.headerSeen = true) (hne : a ≠ [])
    (hhead : ∀ c ∈ a.head?, ['-', '='].contains c = true) (hn : '\n' ∉ a)
    (hr : a.getLast? ≠ some '\r') (hk : kind.isArrow = true)
    (harrow : arrowAt? (a ++ Cursor.lineRest x) = some (kind, a.length)) :
    ∃ tok e, (Scan.run lexStep .eof s).lexed =
        ⟨[tok], []⟩ ++ (Scan.run lexStep .eof e).lexed ∧
      tok.shape = (kind, String.ofList a) ∧ e.cursor.rest = x ∧ modeOf e = .afterArrow ∧
      e.headerSeen = true := by
  obtain ⟨c, rest, rfl⟩ := List.exists_cons_of_ne_nil hne
  have hfollows : s.follows false Kind.isArrow = false := by
    rw [← Bool.not_eq_true, follows_arrow_iff, hmode]
    decide
  have hstep : lexStep s = lexeme kind (c :: rest).length s.cursor := by
    have hline : s.cursor.restOfLine = c :: rest ++ Cursor.lineRest x := by
      rw [Cursor.restOfLine, hs, lineRest_append hn hr]
    have hc := hhead c rfl
    simp only [List.contains_cons, List.contains_nil, Bool.or_false, Bool.or_eq_true,
      beq_iff_eq] at hc
    unfold lexStep
    rw [hline, harrow, hs]
    rcases hc with rfl | rfl
    · simp [Cursor.isBlankChar, hfollows, show isIdentChar '-' = false by decide]
    · simp [Cursor.isBlankChar, show isIdentChar '=' = false by decide]
  have hne : s.cursor.rest ≠ [] := by
    rw [hs]
    exact List.cons_ne_nil _ _
  refine ⟨Token.ofText kind (c :: rest) s.cursor.place, s.after (lexStep s), ?_, rfl, ?_, ?_, ?_⟩
  · rw [run_cons hne, hstep, lexeme]
    dsimp only [Cursor.take]
    rw [hs, List.take_left]
    rfl
  · rw [hstep]
    change (s.cursor.skip _).rest = x
    rw [Cursor.skip_rest, hs, List.drop_left]
  · rw [hstep]
    refine (modeOf_after_token rfl).trans ?_
    cases kind with
    | arrow => rfl
    | invalidArrow => rfl
    | _ => cases hk
  · rw [Reader.after, hseen]
    rfl

/-- A row with an arrow behind its sender: both tokens are read, and then the rest of the row. -/
theorem rowLexed_arrow {a : Text} {kind : Kind} (h : Sender previous lead word gap) (hne : a ≠ [])
    (hhead : ∀ c ∈ a.head?, ['-', '='].contains c = true) (hn : '\n' ∉ a)
    (hr : a.getLast? ≠ some '\r') (hk : kind.isArrow = true)
    (harrow : arrowAt? (a ++ Cursor.lineRest x) = some (kind, a.length)) :
    ∃ sender arrow e, rowLexed previous (lead ++ (word ++ (gap ++ (a ++ x)))) =
        ⟨[sender, arrow], []⟩ ++ (Scan.run lexStep .eof e).lexed ∧
      sender.shape = (.ident, String.ofList word) ∧ arrow.shape = (kind, String.ofList a) ∧
      e.cursor.rest = x ∧ modeOf e = .afterArrow ∧ e.headerSeen = true := by
  have hident : ∀ c ∈ (a ++ x).head?, isIdentChar c = false := by
    intro c hc
    rw [List.head?_append_of_ne_nil _ hne] at hc
    have hsign := hhead c hc
    simp only [List.contains_cons, List.contains_nil, Bool.or_false, Bool.or_eq_true,
      beq_iff_eq] at hsign
    rcases hsign with rfl | rfl
    all_goals decide
  obtain ⟨sender, s, hrun, hsender, hrest, hmode, hseen⟩ :=
    run_sender (s := rowReader previous (lead ++ (word ++ (gap ++ (a ++ x))))) h rfl rfl rfl hident
  obtain ⟨arrow, e, hrun', harrow', hrest', hmode', hseen'⟩ :=
    run_arrow hrest hmode hseen hne hhead hn hr hk harrow
  refine ⟨sender, arrow, e, ?_, hsender, harrow', hrest', hmode', hseen'⟩
  rw [rowLexed, hrun, hrun', ← lexed_append_assoc]
  rfl

/-- A row stays the same up to its arrow when a wrong arrow gives way to the right one. -/
theorem rowLike_arrow (h : Sender previous lead word gap) {a : String} (ha : a ∈ invalidArrows)
    (hn : '\n' ∉ x) (hx : x.head? ≠ some '>') :
    RowLike previous (lead ++ (word ++ (gap ++ (a.toList ++ x))))
      (lead ++ (word ++ (gap ++ ("->>".toList ++ x)))) := by
  have hsigns : ∀ a ∈ invalidArrows, a.toList ≠ [] ∧
      a.toList.head?.all (['-', '='].contains ·) = true ∧ '\n' ∉ a.toList ∧
      a.toList.getLast? ≠ some '\r' := by decide
  have hline : (Cursor.lineRest x).head? ≠ some '>' := by
    intro hhead
    obtain ⟨more, hmore⟩ := List.head?_eq_some_iff.mp hhead
    obtain ⟨rest, hrest⟩ := (Cursor.ofText x).restOfLine_isPrefix
    apply hx
    change _ = x at hrest
    rw [← hrest, show (Cursor.ofText x).restOfLine = _ from hmore]
    rfl
  obtain ⟨hne, hhead, hfeed, hreturn⟩ := hsigns a ha
  obtain ⟨sender, arrow, e, hrow, hsender, harrow, hrest, hmode, hseen⟩ :=
    rowLexed_arrow (x := x) h hne (fun c hc => by rw [hc] at hhead; exact hhead) hfeed hreturn rfl
      (by rw [String.length_toList]; exact arrowAt?_wrong ha hline)
  obtain ⟨sender', arrow', e', hrow', hsender', harrow', hrest', hmode', hseen'⟩ :=
    rowLexed_arrow (a := "->>".toList) (x := x) h (by decide)
      (fun c hc => by rw [← Option.some.inj hc]; decide) (by decide) (by decide) rfl
      (arrowAt?_right _)
  have hend : EndsRow [] := fun c hc => by cases hc
  have hsame : Twins e e' := ⟨hmode.trans hmode'.symm, hseen, hseen'⟩
  obtain ⟨first, first', l, l', htwins⟩ := run_twins hsame hn hend hend
    (hrest.trans (List.append_nil x).symm) (hrest'.trans (List.append_nil x).symm)
  have hall : ∀ {row : Text} {e l : Reader Kind} {first : Lexed Kind} {sender arrow : Tok},
      rowLexed previous row = ⟨[sender, arrow], []⟩ ++ (Scan.run lexStep .eof e).lexed →
      (Scan.run lexStep .eof e).lexed = first ++ (Scan.run lexStep .eof l).lexed →
      l.cursor.rest = [] →
        rowShapes previous row = sender.shape :: arrow.shape :: first.tokens.map Token.shape ∧
          (RowClean previous row ↔ first.errors = []) := by
    intro row e l first sender arrow hrow hrun hl
    rw [rowShapes, RowClean, hrow, hrun, run_nil hl]
    constructor
    · change (([sender, arrow] ++ (first.tokens ++ [_])).map Token.shape).dropLast = _
      rw [← List.append_assoc, List.map_append, List.map_singleton, List.dropLast_concat]
      rfl
    · change first.errors ++ [] = [] ↔ _
      rw [List.append_nil]
  obtain ⟨hshapes, hclean⟩ := hall hrow htwins.run htwins.rest
  obtain ⟨hshapes', hclean'⟩ := hall hrow' htwins.run' htwins.rest'
  refine ⟨?_, by rw [hclean, hclean', htwins.errors]⟩
  rw [hshapes, hshapes', hsender, hsender', harrow, harrow', htwins.shapes]
  exact .cons (.inl rfl) (.cons (.inr ⟨rfl, rfl⟩) (AllLike.refl _))

end

/-! ## Wrong arrows in a text -/

/-- The token before a row of the text behind a header, by the rows above. -/
def tokenAbove (above : Text) : Option Tok := if above = [] then some headerToken else none

theorem rowsAbove_ne_nil {above : Text} (h : ∀ c ∈ above.getLast?, c = '\n') (hne : above ≠ []) :
    rowsAbove above ≠ [] := by
  apply List.ne_nil_of_length_pos
  rw [length_rowsAbove, List.count_pos_iff]
  have hlast := List.getLast?_eq_some_getLast hne
  exact h _ hlast ▸ List.getLast_mem hne

/-- A row changed for one alike makes a page alike. -/
theorem pageLike_of_row {above y y' x x' : Text} {below : List Text}
    (h : ∀ c ∈ above.getLast?, c = '\n') (hrow : RowLike (tokenAbove above) x x')
    (hy : rows y = x :: below) (hy' : rows y' = x' :: below) :
    PageLike (some headerToken) (rows (above ++ y)) (rows (above ++ y')) := by
  have hsame := List.forall₂_same.mpr fun (y : Text) (_ : y ∈ below) => RowLike.refl none y
  rw [rows_of_above h, rows_of_above h, hy, hy']
  by_cases hne : above = []
  · rw [tokenAbove, if_pos hne] at hrow
    rw [hne]
    exact .rows hrow hsame
  · rw [tokenAbove, if_neg hne] at hrow
    obtain ⟨p, ps, hps⟩ := List.exists_cons_of_ne_nil (rowsAbove_ne_nil h hne)
    rw [hps]
    refine .rows (.refl _ _) ?_
    exact List.rel_append (List.forall₂_same.mpr fun y _ => RowLike.refl none y) (.cons hrow hsame)

/-- A wrong arrow behind a sender gives way to the right one. -/
theorem pageLike_arrow {above lead word gap stuff : Text} (habove : ∀ c ∈ above.getLast?, c = '\n')
    (h : Sender (tokenAbove above) lead word gap) {a : String} (ha : a ∈ invalidArrows)
    (hstuff : stuff.head? ≠ some '>') :
    PageLike (some headerToken) (rows (above ++ (lead ++ (word ++ (gap ++ (a.toList ++ stuff))))))
      (rows (above ++ (lead ++ (word ++ (gap ++ ("->>".toList ++ stuff)))))) := by
  obtain ⟨tail, below, hrows⟩ := List.exists_cons_of_ne_nil (rows_ne_nil stuff)
  have htail := isPrefix_of_rows hrows
  have hsender : '\n' ∉ lead ++ (word ++ gap) := by
    have hblank : ∀ {x : Text}, (∀ c ∈ x, Cursor.isBlankChar c = true) → '\n' ∉ x :=
      fun hx hm => absurd (hx _ hm) (by decide)
    have hword : '\n' ∉ word := fun hm => absurd (h.word_ident _ hm) (by decide)
    simp [hblank h.lead_blank, hword, hblank h.gap_blank]
  have hrow : ∀ {b : Text}, '\n' ∉ b → b ≠ [] → b.getLast? ≠ some '\r' →
      rows (lead ++ (word ++ (gap ++ (b ++ stuff)))) =
        (lead ++ (word ++ (gap ++ (b ++ tail)))) :: below := by
    intro b hn hne hr
    have := rows_of_first (x := lead ++ (word ++ gap) ++ b)
      (fun hm => (List.mem_append.mp hm).elim hsender hn)
      (by rwa [List.getLast?_append_of_ne_nil _ hne]) hrows
    simpa only [List.append_assoc] using this
  have hsigns : ∀ a ∈ invalidArrows, '\n' ∉ a.toList ∧ a.toList ≠ [] ∧
      a.toList.getLast? ≠ some '\r' := by decide
  obtain ⟨hn, hne, hr⟩ := hsigns a ha
  refine pageLike_of_row habove (rowLike_arrow h ha ?_ ?_) (hrow hn hne hr)
    (hrow (by decide) (by decide) (by decide))
  · exact newline_not_mem_rows (t := stuff) (by rw [hrows]; exact List.mem_cons_self)
  · intro hhead
    obtain ⟨more, rfl⟩ := List.head?_eq_some_iff.mp hhead
    obtain ⟨rest, rfl⟩ := htail
    exact hstuff rfl

end Sequence

end DiagramLint
