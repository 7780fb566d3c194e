-- The tokens of a sequence diagram, row by row: up to their places they are
-- those of the rows, each read on its own, with a line end behind every row
-- but the last.
import DiagramLint.Proofs.Sequence.Rows
import DiagramLint.Proofs.Text.Rows

namespace DiagramLint.Sequence

open Text

/-! ## Rows on their own -/

/-- The reader of a row on its own, below the header and behind a token. -/
def rowReader (previous : Option Tok) (x : Text) : Reader Kind :=
  { cursor := .ofText x, previous, headerSeen := true }

/-- What the lexer makes of a row on its own. -/
def rowLexed (previous : Option Tok) (x : Text) : Lexed Kind :=
  (Scan.run lexStep .eof (rowReader previous x)).lexed

/-- The tokens of a row, without the end of the text and without their places. -/
def rowShapes (previous : Option Tok) (x : Text) : List (Kind × String) :=
  ((rowLexed previous x).tokens.map Token.shape).dropLast

/-- A row below the header is read in a text as it is on its own. -/
theorem run_row {s : Reader Kind} {previous : Option Tok} {x y : Text}
    (hseen : s.headerSeen = true) (hmode : modeOf s = modeOf (rowReader previous []))
    (hs : s.cursor.rest = x ++ y) (hx : '\n' ∉ x) (hy : EndsRow y) :
    ∃ first e, (Scan.run lexStep .eof s).lexed = first ++ (Scan.run lexStep .eof e).lexed ∧
      e.cursor.rest = rowEnd y ∧ e.headerSeen = true ∧
      first.tokens.map Token.shape = rowShapes previous x ∧
      (first.errors = [] ↔ (rowLexed previous x).errors = []) := by
  have hnil : EndsRow [] := fun c hc => by cases hc
  have htwins : Twins s (rowReader previous x) := ⟨hmode, hseen, rfl⟩
  obtain ⟨first, first', e, e', h⟩ :=
    run_twins htwins hx hy hnil hs (List.append_nil x).symm
  have hown : rowLexed previous x = first' ++ ⟨[Token.ofText .eof [] e'.cursor.place], []⟩ := by
    rw [rowLexed, h.run', run_nil (h.rest'.trans rowEnd_nil)]
  refine ⟨first, e, h.run, h.rest, h.twins.seen, ?_, ?_⟩
  · rw [rowShapes, hown, h.shapes]
    change _ = ((first'.tokens ++ [_]).map _).dropLast
    rw [List.map_append, List.map_singleton, List.dropLast_concat]
  · rw [hown, h.errors]
    change _ ↔ first'.errors ++ [] = []
    rw [List.append_nil]

/-! ## Rows in a text -/

/-- The tokens of rows, the first one behind a token, up to the end of the text. -/
def pageShapes : (previous : Option Tok) → List Text → List (Kind × String)
  | _, [] => []
  | previous, x :: below =>
    rowShapes previous x ++
      (if below.isEmpty then (.eof, "") else (.newline, "\n")) :: pageShapes none below

/-- Rows have a property, the first one as a row behind a token and the others as lines. -/
def OnPage (P : Option Tok → Text → Prop) : (previous : Option Tok) → List Text → Prop
  | _, [] => True
  | previous, x :: below => P previous x ∧ ∀ y ∈ below, P none y

/-- The row has no lexical error. -/
def RowClean (previous : Option Tok) (x : Text) : Prop := (rowLexed previous x).errors = []

theorem onPage_none {P : Option Tok → Text → Prop} {rs : List Text} :
    OnPage P none rs ↔ ∀ x ∈ rs, P none x := by
  cases rs with
  | nil => simp [OnPage]
  | cons x below => exact List.forall_mem_cons.symm

/-- From the start of a row on, the tokens of a text are those of its rows. -/
theorem run_page {s : Reader Kind} {previous : Option Tok} {t : Text}
    (hseen : s.headerSeen = true) (hmode : modeOf s = modeOf (rowReader previous []))
    (hs : s.cursor.rest = t) :
    (Scan.run lexStep .eof s).lexed.tokens.map Token.shape = pageShapes previous t.rows ∧
      ((Scan.run lexStep .eof s).lexed.errors = [] ↔ OnPage RowClean previous t.rows) := by
  induction t using line_induction generalizing s previous with
  | last a ha =>
    obtain ⟨first, e, hrun, hrest, -, hshapes, herrors⟩ := run_row (x := a) (y := []) hseen hmode
      (by rw [hs, List.append_nil]) ha (fun c hc => by cases hc)
    rw [hrun, run_nil (hrest.trans rowEnd_nil), rows_of_not_mem ha]
    constructor
    · change (first.tokens ++ [_]).map _ = _
      rw [List.map_append, hshapes]
      rfl
    · change first.errors ++ [] = [] ↔ _ ∧ _
      rw [List.append_nil, herrors]
      exact (and_iff_left fun y hy => by cases hy).symm
  | more a b ha ih =>
    obtain ⟨returns, hsplit, hreturns⟩ := exists_dropReturn a
    have hend : rowEnd (returns ++ '\n' :: b) = '\n' :: b := by
      rcases hreturns with rfl | rfl
      · rfl
      · rfl
    obtain ⟨first, e, hrun, hrest, hseen', hshapes, herrors⟩ :=
      run_row (x := dropReturn a) (y := returns ++ '\n' :: b) hseen hmode
        (by rw [hs, ← List.append_assoc, ← hsplit]) (fun hm => ha ((dropReturn_isPrefix a).subset hm))
        (fun c hc => by rw [hend] at hc; exact (Option.some.inj hc).symm)
    rw [hend] at hrest
    have hstep : lexStep e = lexeme .newline 1 e.cursor := by
      unfold lexStep
      rw [hrest]
      rfl
    have hfeed : (lexStep e).tokens = [Token.ofText .newline ['\n'] e.cursor.place] := by
      rw [hstep]
      simp [lexeme, Yield.token, Cursor.take, hrest]
    obtain ⟨htokens, hclean⟩ := @ih (e.after (lexStep e)) none (by simp [Reader.after, hseen'])
      (modeOf_after_token (by rw [hfeed]; rfl))
      (by rw [hstep]; change (e.cursor.skip 1).rest = b; rw [Cursor.skip_rest, hrest]; rfl)
    rw [hrun, run_cons (by rw [hrest]; exact List.cons_ne_nil _ _), rows_append ha]
    constructor
    · change (first.tokens ++ ((lexStep e).tokens ++ _)).map _ = _
      rw [List.map_append, List.map_append, hshapes, htokens, hfeed, pageShapes,
        if_neg (by simpa using rows_ne_nil b)]
      rfl
    · change first.errors ++ ((lexStep e).errors ++ _) = [] ↔ _
      rw [List.append_eq_nil_iff, List.append_eq_nil_iff, herrors, hclean, hstep, onPage_none]
      exact and_congr_right fun _ => and_iff_right rfl

end DiagramLint.Sequence
