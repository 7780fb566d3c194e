-- A row with an end put between two rows of a diagram. The other rows stay as
-- they are, so the blocks are those of before up to the new row, and one less
-- from there on, unless a branch behind it is cut off.
import DiagramLint.Proofs.Repair.Blocks
import DiagramLint.Proofs.Sequence.Splices

namespace DiagramLint.Sequence

open Text

/-! ## Rows that start with the word -/

section

variable {blanks rest x : Text}

/-- An `end` at the start of a row is read as that keyword, and then what is left of the row. -/
theorem exists_end (hb : ∀ c ∈ blanks, Cursor.isBlankChar c = true)
    (hr : ∀ c ∈ rest.head?, isIdentChar c = false) :
    ∃ tok e, rowLexed none (blanks ++ ("end".toList ++ rest)) =
        ⟨[tok], []⟩ ++ (Scan.run lexStep .eof e).lexed ∧
      tok.shape = (.keyword, "end") ∧ e.cursor.rest = rest ∧ e.headerSeen = true := by
  obtain ⟨s, hrun, hrest, hmode, hseen⟩ := run_blanks
    (s := rowReader none (blanks ++ ("end".toList ++ rest))) rfl hb
  have hstart : s.follows true (· == .newline) = true := follows_newline_iff.mpr hmode
  have hword : ("end".toList ++ rest).takeWhile isIdentChar = "end".toList := by
    rw [List.takeWhile_append_of_pos (List.all_eq_true.mp (by decide))]
    cases rest with
    | nil => rfl
    | cons c rest => rw [List.takeWhile_cons_of_neg (by simp [hr c rfl]), List.append_nil]
  have hstep : lexStep s =
      ⟨[Token.ofText .keyword "end".toList s.cursor.place], [], s.cursor.skip 3, false⟩ := by
    have hcons : s.cursor.rest = 'e' :: ('n' :: 'd' :: rest) := hrest
    rw [lexStep_of_ident hcons (by decide)]
    unfold word wordKind
    dsimp only [Cursor.takeWhile, Cursor.take]
    rw [hrest, hword, hstart, hseen]
    rfl
  have hne : s.cursor.rest ≠ [] := by
    rw [hrest]
    exact List.cons_ne_nil _ _
  refine ⟨Token.ofText .keyword "end".toList s.cursor.place, s.after (lexStep s), ?_, rfl, ?_, ?_⟩
  · rw [rowLexed, hrun, run_cons hne, hstep]
    rfl
  · rw [hstep]
    change (s.cursor.skip 3).rest = rest
    rw [Cursor.skip_rest, hrest]
    rfl
  · rw [Reader.after, hseen]
    rfl

/-- A row that starts with `end` closes a block. -/
theorem lineMove_of_end (hb : ∀ c ∈ blanks, Cursor.isBlankChar c = true)
    (hr : ∀ c ∈ rest.head?, isIdentChar c = false) (hn : '\n' ∉ rest) :
    lineMove (blanks ++ ("end".toList ++ rest)) = .closes := by
  obtain ⟨tok, e, hrow, hshape, hrest, hseen⟩ := exists_end hb hr
  have hend : EndsRow [] := fun c hc => by cases hc
  obtain ⟨first, _, l, _, htwins⟩ := run_twins ⟨rfl, hseen, hseen⟩ hn hend hend
    (hrest.trans (List.append_nil rest).symm) (hrest.trans (List.append_nil rest).symm)
  rw [lineMove, rowShapes, hrow, htwins.run, run_nil (htwins.rest.trans rowEnd_nil)]
  change shapeMove (([tok] ++ (first.tokens ++ [_])).map Token.shape).dropLast = _
  rw [← List.append_assoc, List.map_append, List.map_singleton, List.dropLast_concat,
    List.map_append, List.map_singleton, hshape]
  rfl

/-- White space in front of a row is blanks, if it is read without an error. -/
theorem blanks_of_clean {s : Reader Kind} {lead z : Text} (hs : s.cursor.rest = lead ++ z)
    (hw : ∀ c ∈ lead, isWhiteSpace c = true) (hn : '\n' ∉ lead)
    (hc : (Scan.run lexStep .eof s).lexed.errors = []) :
    ∀ c ∈ lead, Cursor.isBlankChar c = true := by
  induction lead generalizing s with
  | nil => exact fun c hm => by cases hm
  | cons c lead ih =>
    obtain ⟨hwhite, hlead⟩ := List.forall_mem_cons.mp hw
    obtain ⟨hc', hn'⟩ := not_or.mp (fun hor => hn (List.mem_cons.mpr hor))
    have hne : s.cursor.rest ≠ [] := by rw [hs]; exact List.cons_ne_nil _ _
    rw [run_cons hne] at hc
    obtain ⟨hown, hlater⟩ := List.append_eq_nil_iff.mp hc
    have hblank := ((lexStep_space hs hwhite).mp hown).resolve_right (Ne.symm hc')
    obtain ⟨hcursor, -, -⟩ := lexStep_skims.space s c _ hs hwhite (lexStep_moves hne)
    refine List.forall_mem_cons.mpr ⟨hblank, ih ?_ hlead hn' hlater⟩
    rw [Reader.after, hcursor, Cursor.next_rest, hs]
    rfl

/-- A row without lexical errors whose first word is `end` closes a block. -/
theorem lineMove_of_firstWord (hx : '\n' ∉ x) (hc : RowClean none x)
    (h : x.trim.firstWord = "end".toList) : lineMove x = .closes := by
  have hsplit := List.takeWhile_append_dropWhile (p := isWhiteSpace) (l := x)
  generalize hlead : x.takeWhile isWhiteSpace = lead at hsplit
  rw [trim, firstWord_trimEnd, firstWord_eq, trimStart] at h
  have hbehind := List.takeWhile_append_dropWhile (p := fun c => !endsWord c)
    (l := x.dropWhile isWhiteSpace)
  have hstop := List.head?_dropWhile_not (fun c => !endsWord c) (x.dropWhile isWhiteSpace)
  rw [h] at hbehind
  generalize (x.dropWhile isWhiteSpace).dropWhile (fun c => !endsWord c) = rest at hbehind hstop
  rw [← hbehind] at hsplit
  have hlead' : '\n' ∉ lead ∧ '\n' ∉ rest := by
    rw [← hsplit] at hx
    simp only [List.mem_append, not_or] at hx
    exact ⟨hx.1, hx.2.2⟩
  rw [← hsplit]
  refine lineMove_of_end ?_ ?_ hlead'.2
  · refine blanks_of_clean (s := rowReader none x) hsplit.symm ?_ hlead'.1 hc
    intro c hm
    rw [← hlead] at hm
    exact List.mem_takeWhile_imp hm
  · intro c hm
    rw [Option.mem_def.mp hm] at hstop
    exact isIdentChar_of_endsWord (by simpa using hstop)

end

/-! ## The row of an end -/

section

variable {indent : Text} (hi : ∀ c ∈ indent, c = ' ' ∨ c = '\t')

include hi

theorem newline_not_mem_end : '\n' ∉ indent ++ "end".toList := by
  intro hm
  rcases List.mem_append.mp hm with hm | hm
  · rcases hi _ hm with h | h
    all_goals cases h
  · revert hm
    decide

/-- An indented `end` is read as that keyword. -/
theorem rowLexed_end :
    ∃ tok eof, rowLexed none (indent ++ "end".toList) = ⟨[tok, eof], []⟩ ∧
      tok.shape = (.keyword, "end") := by
  obtain ⟨tok, e, hrow, hshape, hrest, -⟩ := @exists_end indent []
    (fun c hc => by
      rcases hi c hc with rfl | rfl
      all_goals rfl)
    (fun c hc => by cases hc)
  rw [List.append_nil, run_nil hrest] at hrow
  exact ⟨tok, _, hrow, hshape⟩

theorem rowShapes_end : rowShapes none (indent ++ "end".toList) = [(.keyword, "end")] := by
  obtain ⟨tok, eof, hrow, hshape⟩ := rowLexed_end hi
  rw [rowShapes, hrow, ← hshape]
  rfl

theorem rowClean_end : RowClean none (indent ++ "end".toList) := by
  obtain ⟨tok, eof, hrow, -⟩ := rowLexed_end hi
  rw [RowClean, hrow]

theorem rowFine_end : RowFine none (indent ++ "end".toList) := by
  refine .inr ⟨[⟨.keyword, "end", 0, 0⟩], _, ?_, .closed rfl rfl⟩
  rw [rowShapes_end hi]
  rfl

theorem lineMove_end : lineMove (indent ++ "end".toList) = .closes := by
  rw [lineMove, rowShapes_end hi]
  rfl

end

theorem getLast?_end (indent : Text) : (indent ++ "end".toList).getLast? ≠ some '\r' := by
  rw [List.getLast?_append_of_ne_nil _ (by decide)]
  decide

/-! ## The row in the text -/

/-- A row is read alike without the carriage return at its end. -/
theorem rowLike_dropReturn (previous : Option Tok) {x : Text} (hx : '\n' ∉ x) :
    RowLike previous x (dropReturn x) := by
  obtain ⟨returns, hsplit, hreturns⟩ := exists_dropReturn x
  have hend : rowEnd returns = [] := by
    rcases hreturns with rfl | rfl
    all_goals rfl
  obtain ⟨first, e, hrun, hrest, -, hshapes, herrors⟩ := run_row (s := rowReader previous x)
    (x := dropReturn x) (y := returns) rfl rfl hsplit (fun hm => hx ((dropReturn_isPrefix x).subset hm))
    (fun c hc => by rw [hend] at hc; cases hc)
  rw [hend] at hrest
  have hrow : rowLexed previous x = first ++ ⟨[Token.ofText .eof [] e.cursor.place], []⟩ := by
    rw [rowLexed, hrun, run_nil hrest]
  constructor
  · rw [rowShapes, hrow, ← hshapes]
    change AllLike (((first.tokens ++ [_]).map Token.shape).dropLast) _
    rw [List.map_append, List.map_singleton, List.dropLast_concat]
    exact AllLike.refl _
  · rw [RowClean, RowClean, hrow, ← herrors]
    change first.errors ++ [] = [] ↔ _
    rw [List.append_nil]

/-! ## A page with an end put in -/

/-- A page with one row more, up to rows alike, behind so many rows at least. -/
structure PutIn (previous : Option Tok) (row : Text) (number : Nat) (rs rs' above below : List Text) :
    Prop where
  before : PageLike previous rs (above ++ below)
  behind : PageLike previous (above ++ row :: below) rs'
  number_lt : number < above.length

section

variable {previous : Option Tok} {row : Text} {number : Nat} {rs rs' above below : List Text}

theorem pageMoves_append (h : above ≠ []) :
    pageMoves previous (above ++ below) = pageMoves previous above ++ below.map lineMove := by
  obtain ⟨x, above, rfl⟩ := List.exists_cons_of_ne_nil h
  rw [List.cons_append, pageMoves, pageMoves, List.map_append, List.cons_append]

theorem length_pageMoves (previous : Option Tok) (rs : List Text) :
    (pageMoves previous rs).length = rs.length := by
  cases rs with
  | nil => rfl
  | cons x below => rw [pageMoves, List.length_cons, List.length_map, List.length_cons]

theorem PutIn.above_ne_nil (h : PutIn previous row number rs rs' above below) : above ≠ [] :=
  List.ne_nil_of_length_pos (Nat.lt_of_le_of_lt (Nat.zero_le _) h.number_lt)

theorem onPage_append {P : Option Tok → Text → Prop} (h : above ≠ []) :
    OnPage P previous (above ++ below) ↔ OnPage P previous above ∧ ∀ x ∈ below, P none x := by
  obtain ⟨x, above, rfl⟩ := List.exists_cons_of_ne_nil h
  rw [List.cons_append, OnPage, OnPage, List.forall_mem_append, and_assoc]

/-- What holds of the row put in and of the rows of before holds of all rows. -/
theorem PutIn.onPage (h : PutIn previous row number rs rs' above below)
    {P : Option Tok → Text → Prop}
    (hP : ∀ {previous x x'}, RowLike previous x x' → P previous x → P previous x')
    (hrow : P none row) (hrs : OnPage P previous rs) : OnPage P previous rs' := by
  refine h.behind.onPage hP ?_
  have hall := h.before.onPage hP hrs
  rw [onPage_append h.above_ne_nil] at hall ⊢
  exact ⟨hall.1, List.forall_mem_cons.mpr ⟨hrow, hall.2⟩⟩

/-- An end put in behind the row of a block that stays open closes one block, if no branch behind
it is cut off. -/
theorem PutIn.run_end (h : PutIn previous row number rs rs' above below)
    (hrow : lineMove row = .closes) {xs mid : List BlockMove} {keyword : String}
    (hmoves : pageMoves previous rs = xs ++ .opens keyword :: mid) (hnumber : xs.length = number)
    (hopen : BlockMove.surplus 0 mid = 0)
    (hbranches : BlockMove.keepsBranches [] (below.map lineMove) = true) {around : List String}
    (hrun : BlockMove.run (pageMoves previous rs) [] = some around) :
    ∃ around', BlockMove.run (pageMoves previous rs') [] = some around' ∧
      around'.length + 1 = around.length := by
  have hsplit := h.before.moves
  rw [pageMoves_append h.above_ne_nil, hmoves] at hsplit
  obtain ⟨inner, habove, rfl⟩ : ∃ inner, pageMoves previous above = xs ++ .opens keyword :: inner ∧
      mid = inner ++ below.map lineMove := by
    have hlt := h.number_lt
    rw [← length_pageMoves previous above, ← hnumber] at hlt
    rcases List.append_eq_append_iff.mp hsplit with ⟨more, hxs, -⟩ | ⟨more, habove, hmore⟩
    · rw [hxs, List.length_append] at hlt
      omega
    · cases more with
      | nil =>
        rw [habove, List.append_nil] at hlt
        exact absurd hlt (Nat.lt_irrefl _)
      | cons first inner =>
        obtain ⟨rfl, hmid⟩ := List.cons.inj hmore
        exact ⟨inner, habove, hmid⟩
  rw [hmoves] at hrun
  obtain ⟨around', hrun', hlength⟩ := BlockMove.run_with_end hrun hopen hbranches
  refine ⟨around', ?_, hlength⟩
  rw [h.behind.moves, pageMoves_append h.above_ne_nil, habove, List.map_cons, hrow]
  simpa only [List.append_assoc, List.cons_append] using hrun'

end

/-! ## The end in a batch of changes -/

section

variable {g : Heading} {t post indent : Text} {arrows later : List Change} {number : Nat}

/-- The changes of a pass around the one that puts in an end: the others mend wrong arrows. -/
structure Batch (g : Heading) (t : Text) (arrows : List Change) (c : Change) (later : List Change) :
    Prop where
  fitting : Fitting t (arrows ++ c :: later)
  ordered : (arrows ++ c :: later).Pairwise fun a b => a.1.stop ≤ b.1.start
  arrows_mend : ∀ c ∈ arrows, ArrowChange g t c
  later_mend : ∀ c ∈ later, ArrowChange g t c

variable {c : Change}

/-- What mends wrong arrows behind the change leaves rows alike. -/
theorem Batch.later_like (h : Batch g t arrows c later) (ht : t = g.text ++ post) :
    TextLike g t (t.spliceFrom 0 later) := by
  have hord := (List.pairwise_cons.mp (List.pairwise_append.mp h.ordered).2.1).2
  have hfit : Fitting t (later ++ []) := fun c hm => h.fitting c (List.mem_append_right _
    (List.mem_cons_of_mem _ (by rwa [List.append_nil] at hm)))
  have hlike := textLike_arrows h.later_mend hfit (by rwa [List.append_nil])
    (fun c hm => by cases hm) ⟨post, by rw [spliceFrom, slice_all, ht]⟩
  rwa [List.append_nil, spliceFrom, slice_all] at hlike

/-- What mends wrong arrows before the change leaves rows alike. -/
theorem Batch.arrows_like (h : Batch g t arrows c later) (hnew : c.2 ≠ [] ∧ c.2.head? ≠ some '>')
    {stuff : Text} (hc : t.spliceFrom 0 (c :: later) = g.text ++ stuff) :
    TextLike g (g.text ++ stuff) (t.spliceFrom 0 (arrows ++ c :: later)) := by
  rw [← hc]
  refine textLike_arrows h.arrows_mend h.fitting h.ordered ?_ ⟨stuff, hc⟩
  exact List.forall_mem_cons.mpr ⟨hnew, fun c hm => (h.later_mend c hm).newText⟩

/-- An end between two lines is a row between those above and those below. -/
theorem Batch.putIn_between {a b : Text} (hi : ∀ c ∈ indent, c = ' ' ∨ c = '\t')
    (ht : t = g.text ++ (a ++ b)) (ha : ∀ c ∈ a.getLast?, c = '\n')
    (hnumber : number < a.count '\n')
    (hc : c = (⟨byteSize (g.text ++ a), byteSize (g.text ++ a)⟩,
      indent ++ "end".toList ++ t.newline))
    (h : Batch g t arrows c later) :
    ∃ post' above below, t.spliceFrom 0 (arrows ++ c :: later) = g.text ++ post' ∧
      PutIn (some headerToken) (indent ++ "end".toList) number (rows (a ++ b)) (rows post') above
        below ∧ below.map lineMove = (rows b).map lineMove := by
  have habove : rowsAbove a ≠ [] := List.ne_nil_of_length_pos (by rw [length_rowsAbove]; omega)
  have hsplit : t = (g.text ++ a) ++ [] ++ b := by rw [ht]; simp
  obtain ⟨hput, hkept⟩ := spliceFrom_first (c := c) hsplit (by rw [hc, List.append_nil])
    (fun c' hm => h.fitting c' (List.mem_append_right _ hm))
    (List.pairwise_cons.mp (List.pairwise_append.mp h.ordered).2.1).1
  generalize t.spliceFrom (byteSize (g.text ++ a ++ [])) later = stuff at hput hkept
  -- the rows below stay alike, and with them what they do to the blocks
  obtain ⟨post, post₁, ht', hlater, hlike₁⟩ := h.later_like ht
  obtain rfl := List.append_cancel_left (ht.symm.trans ht')
  rw [hkept, List.append_nil, List.append_assoc] at hlater
  obtain rfl := List.append_cancel_left hlater
  rw [rows_of_above ha stuff] at hlike₁
  have hbelow : (rows stuff).map lineMove = (rows b).map lineMove := by
    have hmoves := hlike₁.moves
    rw [rows_of_above ha, pageMoves_append habove, pageMoves_append habove] at hmoves
    exact List.append_cancel_left hmoves
  have hrow : rows (a ++ (indent ++ "end".toList ++ (t.newline ++ stuff))) =
      rowsAbove a ++ (indent ++ "end".toList) :: rows stuff := by
    rw [rows_of_above ha, rows_append_newline t (newline_not_mem_end hi) (getLast?_end _)]
  have hput' : t.spliceFrom 0 (c :: later) =
      g.text ++ (a ++ (indent ++ "end".toList ++ (t.newline ++ stuff))) := by
    rw [hput, hc]
    simp
  have hnew : c.2 ≠ [] ∧ c.2.head? ≠ some '>' := by
    rw [hc]
    cases indent with
    | nil => exact ⟨List.cons_ne_nil _ _, fun h => by cases h⟩
    | cons first rest =>
      refine ⟨List.cons_ne_nil _ _, ?_⟩
      rcases hi first List.mem_cons_self with rfl | rfl
      · exact fun h => by cases h
      · exact fun h => by cases h
  obtain ⟨post₂, post', hpost₂, hall, hlike₂⟩ := h.arrows_like hnew hput'
  obtain rfl := List.append_cancel_left hpost₂
  rw [hrow] at hlike₂
  exact ⟨post', rowsAbove a, rows stuff, hall, ⟨hlike₁, hlike₂, by rwa [length_rowsAbove]⟩, hbelow⟩

/-- An end behind the last line is a row below all others. -/
theorem Batch.putIn_behind {a row : Text} (hi : ∀ c ∈ indent, c = ' ' ∨ c = '\t')
    (ht : t = g.text ++ (a ++ row)) (ha : ∀ c ∈ a.getLast?, c = '\n') (hrow : '\n' ∉ row)
    (hnumber : number ≤ a.count '\n')
    (hc : c = (⟨byteSize t, byteSize t⟩, t.newline ++ indent ++ "end".toList))
    (h : Batch g t arrows c later) :
    ∃ post' above, t.spliceFrom 0 (arrows ++ c :: later) = g.text ++ post' ∧
      PutIn (some headerToken) (indent ++ "end".toList) number (rows (a ++ row)) (rows post') above
        [] := by
  -- a mended arrow behind the end of the text would have no place
  obtain rfl : later = [] := by
    refine List.eq_nil_iff_forall_not_mem.mpr fun c' hm => ?_
    have hle := (List.pairwise_cons.mp (List.pairwise_append.mp h.ordered).2.1).1 c' hm
    obtain ⟨hlt, hstop⟩ := (h.later_mend c' hm).range
    rw [hc] at hle
    dsimp only at hle
    omega
  have hput : t.spliceFrom 0 [c] = g.text ++ (a ++ (row ++ (t.newline ++ (indent ++ "end".toList)))) := by
    have hsplit : t = t ++ [] ++ [] := by simp
    obtain ⟨hput, -⟩ := spliceFrom_first (c := c) hsplit (by rw [hc, List.append_nil])
      (fun c' hm => h.fitting c' (List.mem_append_right _ hm)) (fun c' hm => by cases hm)
    have hnone : t.slice (byteSize t) (byteSize t) = [] := by simp [slice]
    have hstart : ∀ x, t ++ x = g.text ++ (a ++ (row ++ x)) := by
      intro x
      rw [ht]
      simp only [List.append_assoc]
    rw [hput, hc, spliceFrom, List.append_nil, hnone, List.append_nil, hstart]
    simp only [List.append_assoc]
  have hnew : c.2 ≠ [] ∧ c.2.head? ≠ some '>' := by
    rw [hc]
    unfold Text.newline
    dsimp only
    split
    all_goals exact ⟨List.cons_ne_nil _ _, fun h => by cases h⟩
  obtain ⟨post₂, post', hpost₂, hall, hlike⟩ := h.arrows_like hnew hput
  obtain rfl := List.append_cancel_left hpost₂
  obtain ⟨returns, hreturns, hrows⟩ := exists_returns t
  have hend := rows_of_not_mem (newline_not_mem_end hi)
  have hlast : '\n' ∉ dropReturn (row ++ returns) := by
    intro hm
    rcases List.mem_append.mp ((dropReturn_isPrefix _).subset hm) with hm | hm
    · exact hrow hm
    · rcases hreturns with rfl | rfl
      all_goals simp at hm
  have hkept : PageLike (some headerToken) (rows (a ++ row))
      (rowsAbove a ++ [dropReturn (row ++ returns)]) := by
    have hlike : RowLike (tokenAbove a) row (dropReturn (row ++ returns)) := by
      rcases hreturns with rfl | rfl
      · rw [List.append_nil]
        exact rowLike_dropReturn _ hrow
      · rw [dropReturn, if_pos List.getLast?_concat, List.dropLast_concat]
        exact .refl _ _
    have hpage := pageLike_of_row ha hlike (rows_of_not_mem hrow) (rows_of_not_mem hlast)
    rwa [rows_of_above ha (dropReturn _), rows_of_not_mem hlast] at hpage
  rw [rows_of_above ha, hrows row hrow, hend] at hlike
  refine ⟨post', rowsAbove a ++ [dropReturn (row ++ returns)], hall, ⟨?_, ?_, ?_⟩⟩
  · rwa [List.append_nil]
  · simpa using hlike
  · rw [List.length_append, length_rowsAbove]
    exact Nat.lt_succ_of_le hnumber

end

end DiagramLint.Sequence
