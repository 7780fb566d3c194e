-- The safe repairs of a pie chart: the quotation marks in a string, a missing
-- colon and a misspelled keyword are mended where a reader of the lexer
-- stands, so that what a pass leaves is read without an error.
import Mathlib.Data.List.Chain
import DiagramLint.Proofs.Lexing.Mending
import DiagramLint.Proofs.Linter.Codes
import DiagramLint.Proofs.Pie.Showing
import DiagramLint.Proofs.Pie.Spelling
import DiagramLint.Proofs.Repair.Convergence
import DiagramLint.Proofs.Repair.Entities
import DiagramLint.Proofs.Repair.Quotes

namespace DiagramLint

/-! ## Encoded strings -/

/-- Characters without quotation marks are a text in quotes up to the mark behind them. -/
theorem Quoted.read_of_plain {x : Text} (hq : '"' ∉ x) (hn : '\n' ∉ x)
    (hlast : x.getLast? ≠ some '\\') : read (x ++ ['"']) = .closed (x ++ ['"']) := by
  induction x with
  | nil => rfl
  | cons c x ih =>
    rw [List.mem_cons, not_or] at hq hn
    have hrest : x.getLast? ≠ some '\\' := by
      intro h
      rw [List.getLast?_cons, h] at hlast
      exact hlast rfl
    rw [List.cons_append, read, if_neg (Ne.symm hn.1), if_neg (Ne.symm hq.1), ih hq.2 hn.2 hrest]
    · rfl
    · -- a backslash does not stand before the closing mark
      rintro more rfl hmore
      cases x with
      | nil => exact hlast rfl
      | cons d x =>
        rw [List.cons_append, List.cons.injEq] at hmore
        exact hq.2 (hmore.1 ▸ List.mem_cons_self)

/-- Where only marks behind a backslash stand, none is left when these are encoded. -/
theorem quote_not_mem_of_encodes {x out : Text} (h : Encodes escapedQuoteRules x out)
    {previous : Option Char} {i : Nat} (hx : quoteIndexes previous i x = [])
    (hp : previous = some '\\' → x.head? ≠ some '"') : '"' ∉ out := by
  induction h generalizing previous i with
  | done => simp
  | keep hr _ ih =>
    rw [List.mem_singleton.mp hr] at hx ⊢
    rw [quoteIndexes_append, List.append_eq_nil_iff] at hx
    rw [List.mem_append, not_or]
    exact ⟨by decide, ih hx.2 fun h => by cases h⟩
  | replace hr _ _ ih =>
    rw [List.mem_singleton.mp hr] at hx ⊢
    rw [quoteIndexes_append, List.append_eq_nil_iff] at hx
    rw [List.mem_append, not_or]
    exact ⟨by decide, ih hx.2 fun h => by cases h⟩
  | @copy c x out hcopy _ ih =>
    rw [quoteIndexes] at hx
    split at hx
    · cases hx
    · rename_i hc
      have hne : c ≠ '"' := by
        rintro rfl
        exact hc ⟨rfl, fun h => hp h rfl⟩
      have hrest := ih hx (by
        intro hslash hhead
        obtain ⟨more, rfl⟩ := List.head?_eq_some_iff.mp hhead
        refine hcopy _ List.mem_cons_self (by decide) ?_
        rw [Option.some.inj hslash]
        exact ⟨more, rfl⟩)
      rw [List.mem_cons, not_or]
      exact ⟨hne.symm, hrest⟩

/-- What stands in quotes has marks behind backslashes only, and no backslash at its end. -/
theorem quoteIndexes_of_read {inner : Text}
    (h : Quoted.read (inner ++ ['"']) = .closed (inner ++ ['"'])) :
    quoteIndexes none 0 inner = [] ∧ inner.getLast? ≠ some '\\' := by
  obtain ⟨inner', hinner, hindexes⟩ :=
    quoteIndexes_of_closed h none 0 fun h => absurd h (by decide)
  obtain rfl := List.append_cancel_right hinner
  rw [quoteIndexes_append] at hindexes
  have hnone : quoteIndexes none 0 inner = [] := by
    rw [List.eq_nil_iff_forall_not_mem]
    intro k hk
    obtain ⟨-, hget⟩ := quoteIndexes_getElem hk
    obtain ⟨hlt, -⟩ := List.getElem?_eq_some_iff.mp hget
    have hmem : k ∈ [0 + inner.length] := hindexes ▸ List.mem_append_left _ hk
    rw [List.mem_singleton] at hmem
    omega
  refine ⟨hnone, fun hlast => ?_⟩
  rw [hnone, hlast] at hindexes
  cases hindexes

/-- A text in quotes stays one when its marks behind backslashes are encoded. -/
theorem read_encodeEntities {inner out : Text}
    (h : Quoted.read (inner ++ ['"']) = .closed (inner ++ ['"']))
    (hout : encodeEntities escapedQuoteRules inner = .ok out) :
    Quoted.read (out ++ ['"']) = .closed (out ++ ['"']) := by
  have hne : ∀ r ∈ escapedQuoteRules, r.encoded ≠ [] := by decide
  have henc := encodes_of_eq_ok hout
  obtain ⟨-, hline, -⟩ := Quoted.read_closed h
  obtain ⟨hnone, hlast⟩ := quoteIndexes_of_read h
  refine Quoted.read_of_plain (quote_not_mem_of_encodes henc hnone fun h => by cases h) ?_ ?_
  · intro hmem
    rcases henc.mem_or_mem hmem with hold | ⟨r, hr, hnew⟩
    · exact hline (List.mem_append_left _ hold)
    · rw [List.mem_singleton.mp hr] at hnew
      exact absurd hnew (by decide)
  · exact fun h => hlast (henc.getLast? hne (by decide) h)

namespace Pie

variable {t : Text} {pre post : Toks} {tok : Tok} {s s' : Reader Kind} {before lead ahead : Text}
  {d : Diagnostic} {p : Proposal} {edit : Edit}

/-! ## Strings and the readers before them -/

/-- Where a string of a chart is read. -/
structure StringAt (t : Text) (pre : Toks) (tok : Tok) (post : Toks) (s : Reader Kind)
    (before inner behind : Text) : Prop where
  reaches : lexStep.Reaches (Reader.ofText t) s
  leads : lexStep.Leads s (s.after (lexStep s))
  cursor_at : s.cursor.At t before
  rest_eq : s.cursor.rest = '"' :: (inner ++ '"' :: behind)
  read_eq : Quoted.read (inner ++ ['"']) = .closed (inner ++ ['"'])
  step_eq : lexStep s = lexeme .str (inner.length + 2) s.cursor
  tok_eq : tok = Token.ofText .str ('"' :: (inner ++ ['"'])) s.cursor.place
  previous_eq : s.previous = pre.getLast?
  run_eq : (Scan.run lexStep .eof s).lexed.tokens = tok :: post

theorem take_quoted (inner behind : Text) :
    ('"' :: (inner ++ '"' :: behind)).take (inner.length + 2) = '"' :: (inner ++ ['"']) := by
  have h : ('"' :: (inner ++ ['"']) ++ behind).take ('"' :: (inner ++ ['"'])).length =
      '"' :: (inner ++ ['"']) := List.take_left
  simpa using h

theorem wordKind_ne_str (r : Reader Kind) (w : String) : wordKind r w ≠ .str := by
  unfold wordKind
  dsimp only
  split
  · decide
  · split
    · decide
    · split <;> decide

theorem exists_stringAt (hc : lexStep.Clean (Reader.ofText t))
    (ht : (scan t).lexed.tokens = pre ++ tok :: post) (hk : tok.kind = .str) :
    ∃ s before inner behind, StringAt t pre tok post s before inner behind := by
  obtain ⟨s, earlier, later, hr, hne, hsteps, hfirst⟩ := hc.exists_reader ht (by rw [hk]; decide)
  have hleads := (hc.of_reaches hr).leads hne
  obtain ⟨before, hat⟩ := lexStep_honest.at_reaches (Cursor.at_ofText t) hr
  obtain ⟨c, rest, hrest⟩ := List.exists_cons_of_ne_nil hne
  have hmem : tok ∈ (lexStep s).tokens := by rw [hsteps]; simp
  have htook := lexStep_took hleads hrest
  generalize hy : lexStep s = y at htook hmem hsteps
  cases htook with
  | blank | comment => cases hmem
  | newline | colon | number =>
    rw [List.mem_singleton.mp hmem] at hk
    cases hk
  | word =>
    obtain ⟨more, htoks, htext⟩ := word_tokens s
    rw [htoks] at hmem
    rcases List.mem_cons.mp hmem with rfl | hmem
    · exact absurd hk (wordKind_ne_str _ _)
    · rw [htext tok hmem] at hk
      cases hk
  | @str image hquote hi =>
    obtain ⟨inner, himage, -⟩ := quoteIndexes_of_closed hi (some '"') 0 fun h => by cases h
    obtain ⟨⟨behind, hbehind⟩, -, -⟩ := Quoted.read_closed hi
    have hclosed := Quoted.read_closed_append hi []
    rw [List.append_nil] at hclosed
    subst himage
    have hrest' : s.cursor.rest = '"' :: (inner ++ '"' :: behind) := by
      rw [hrest, hquote, ← hbehind]
      simp
    have htake : s.cursor.rest.take (inner.length + 2) = '"' :: (inner ++ ['"']) := by
      rw [hrest', take_quoted]
    have hlexeme : lexStep s = lexeme .str (inner.length + 2) s.cursor := by
      rw [hy, List.length_append]
      rfl
    have hone : (lexStep s).tokens = [Token.ofText .str ('"' :: (inner ++ ['"'])) s.cursor.place] := by
      rw [hlexeme, ← htake]
      rfl
    rw [← hy, hone] at hsteps
    obtain ⟨rfl, htok⟩ : earlier = [] ∧ Token.ofText .str ('"' :: (inner ++ ['"'])) s.cursor.place =
        tok := by
      rcases List.append_eq_singleton_iff.mp hsteps.symm with ⟨h1, h2⟩ | ⟨-, h2⟩
      · exact ⟨h1, (List.cons.inj h2).1.symm⟩
      · cases h2
    obtain ⟨hprev, hrun⟩ := hfirst rfl
    exact ⟨s, before, inner, behind, hr, hleads, hat, hrest', hclosed, hlexeme, htok.symm,
      by rw [hprev]; simp [Reader.ofText], hrun⟩

/-! ## Quotation marks on the line of a string -/

/-- No string opens right behind a backslash. -/
def StringsApart (toks : Toks) : Prop :=
  toks.IsChain fun a b => b.kind = .str → b.place = a.endPlace → a.image.toList.getLast? ≠ some '\\'

instance : DecidablePred StringsApart := fun toks => inferInstanceAs (Decidable (toks.IsChain _))

/-- What is known of the marks on the line of a reader that is not at the end of it: they come in
pairs, and a backslash right before the reader ends the token before. -/
structure Paired (s : Reader Kind) (before : Text) : Prop where
  even : Even (quoteIndexes none 0 (lineSoFar before)).length
  slash : before.getLast? = some '\\' → ∃ tok ∈ s.previous, tok.endPlace = placeAfter before ∧
    tok.image.toList.getLast? = some '\\'

theorem paired_append {x : Text} (h : Paired s before) (hq : '"' ∉ x) (hn : '\n' ∉ x) (hx : x ≠ [])
    (hslash : x.getLast? = some '\\' → ∃ tok ∈ s'.previous,
      tok.endPlace = placeAfter (before ++ x) ∧ tok.image.toList.getLast? = some '\\') :
    Paired s' (before ++ x) := by
  refine ⟨?_, fun hlast => hslash ?_⟩
  · rw [lineSoFar_append before hn, quoteIndexes_append, quoteIndexes_of_not_mem hq,
      List.append_nil]
    exact h.even
  · rw [List.getLast?_append] at hlast
    cases hlast' : x.getLast? with
    | none => exact absurd (List.getLast?_eq_none_iff.mp hlast') hx
    | some c =>
      rw [hlast'] at hlast
      exact hlast

theorem getLast?_lineSoFar {c : Char} (h : (lineSoFar before).getLast? = some c) :
    before.getLast? = some c := by
  obtain ⟨above, habove⟩ := lineSoFar_isSuffix before
  rw [← habove, List.getLast?_append, h]
  rfl

/-- No backslash stands right before a string. -/
theorem Paired.slash_ne (h : Paired s before) (hat : s.cursor.At t before)
    (ha : StringsApart (scan t).lexed.tokens) (hr : lexStep.Reaches (Reader.ofText t) s)
    (hl : lexStep.Leads s s') {n : Nat} (hstep : lexStep s = lexeme .str n s.cursor) :
    (lineSoFar before).getLast? ≠ some '\\' := by
  intro hlast
  obtain ⟨tok, htok, hplace, hslash⟩ := h.slash (getLast?_lineSoFar hlast)
  obtain ⟨pre, htoks, hprev⟩ := hr.exists_tokens Kind.eof
  have hbehind := hl.tokens_run Kind.eof
  rw [hstep] at hbehind
  have hall : (scan t).lexed.tokens = pre ++ (_ :: (Scan.run lexStep .eof s').lexed.tokens) :=
    htoks.trans (congrArg (pre ++ ·) hbehind)
  rw [StringsApart, hall, List.isChain_append] at ha
  have hpre : pre.getLast? = some tok := by
    rw [htok] at hprev
    simpa [Reader.ofText] using hprev.symm
  refine ha.2.2 tok hpre _ rfl rfl ?_ hslash
  exact hat.place_eq.trans hplace.symm

theorem endPlace_ofText (kind : Kind) {w : Text} (hw : '\n' ∉ w) :
    (Token.ofText kind w (placeAfter before)).endPlace = placeAfter (before ++ w) := by
  rw [placeAfter, placeAfter, List.foldl_append, foldl_advance_of_not_mem _ hw]
  simp [Token.endPlace, Token.endColumn, Token.ofText]

/-- Behind characters that are no marks, no line feeds and no backslashes. -/
theorem Paired.plain {x : Text} (h : Paired s before) (hx : x ≠ [])
    (hall : ∀ d ∈ x, d ∉ ['"', '\n', '\\']) : Paired s' (before ++ x) := by
  refine paired_append h ?_ ?_ hx ?_
  · exact fun hm => hall _ hm (by decide)
  · exact fun hm => hall _ hm (by decide)
  · exact fun hlast => absurd (by decide) (hall _ (List.mem_of_getLast? hlast))

/-- Behind a string with no backslash right before it. -/
theorem Paired.string {image : Text} (h : Paired s before)
    (hslash : (lineSoFar before).getLast? ≠ some '\\') (hi : Quoted.read image = .closed image) :
    Paired s' (before ++ '"' :: image) := by
  obtain ⟨inner, rfl, hindexes⟩ := quoteIndexes_of_closed hi (some '"')
    (0 + (lineSoFar before).length + 1) fun h => by cases h
  constructor
  · rw [lineSoFar_append before (by simpa using (Quoted.read_closed hi).2.1),
      quoteIndexes_append, quoteIndexes, if_pos ⟨rfl, by simpa using hslash⟩, hindexes]
    simpa using h.even.add (by decide : Even 2)
  · intro hlast
    rw [← List.cons_append, ← List.append_assoc, List.getLast?_concat] at hlast
    cases hlast

/-- Behind a word and the blanks that are passed with it: a backslash can only end the word. -/
theorem Paired.word {more : Text} (h : Paired s before) (hat : s.cursor.At t before)
    (hx : wordAhead s ++ more ≠ []) (hblank : ∀ d ∈ more, Cursor.isBlankChar d = true)
    (hprev : s'.previous = some (Token.ofText (wordKindAhead s) (wordAhead s) s.cursor.place)) :
    Paired s' (before ++ (wordAhead s ++ more)) := by
  have hword : ∀ d ∈ wordAhead s, isPieWordChar d = true := fun d hd => List.mem_takeWhile_imp hd
  have hno : ∀ d ∈ ['"', '\n'], d ∉ wordAhead s ++ more := by
    intro d hd hmem
    have hall : ∀ d ∈ ['"', '\n'], isPieWordChar d = false ∧ Cursor.isBlankChar d = false :=
      forall_mem_of_all (by decide)
    rcases List.mem_append.mp hmem with hmem | hmem
    · have := hword d hmem
      rw [(hall d hd).1] at this
      cases this
    · have := hblank d hmem
      rw [(hall d hd).2] at this
      cases this
  refine paired_append h (hno _ (by decide)) (hno _ (by decide)) hx fun hlast => ?_
  rw [List.getLast?_append] at hlast
  cases hlast' : more.getLast? with
  | some d =>
    rw [hlast'] at hlast
    have := hblank d (List.mem_of_getLast? hlast')
    rw [Option.some.inj hlast] at this
    cases this
  | none =>
    rw [hlast'] at hlast
    rw [List.getLast?_eq_none_iff.mp hlast', List.append_nil] at hno ⊢
    refine ⟨_, hprev, ?_, ?_⟩
    · rw [hat.place_eq]
      exact endPlace_ofText _ (hno _ (by decide))
    · change (String.ofList (wordAhead s)).toList.getLast? = _
      rw [String.toList_ofList]
      exact hlast

/-- A number has no mark, no line feed and no backslash. -/
theorem forall_mem_number {c : Char} {x : Text}
    (hc : (c.isDigit || (c == '-' && x.head?.any Char.isDigit)) = true)
    (hx : ∀ d ∈ x, isNumberChar d = true) : ∀ d ∈ c :: x, d ∉ ['"', '\n', '\\'] := by
  intro d hmem hd
  have hall : ∀ d ∈ ['"', '\n', '\\'],
      d.isDigit = false ∧ (d == '-') = false ∧ isNumberChar d = false :=
    forall_mem_of_all (by decide)
  obtain ⟨hdigit, hminus, hnumber⟩ := hall d hd
  rcases List.mem_cons.mp hmem with rfl | hmem
  · rw [hdigit, hminus] at hc
    cases hc
  · rw [hx d hmem] at hnumber
    cases hnumber

/-- Every reader of a clean scan is at the end of its line, or the marks before it come in pairs. -/
theorem paired_of_reaches (ha : StringsApart (scan t).lexed.tokens)
    (hr : lexStep.Reaches (Reader.ofText t) s) (hat : s.cursor.At t before) :
    (∀ c ∈ s.cursor.rest.head?, c = '\n') ∨ Paired s before := by
  induction hr generalizing before with
  | refl =>
    right
    rw [hat.unique (Cursor.at_ofText t)]
    exact ⟨by simp [lineSoFar, quoteIndexes], fun h => by cases h⟩
  | @tail s s' hr hl ih =>
    obtain ⟨before, hat₀⟩ := lexStep_honest.at_reaches (Cursor.at_ofText t) hr
    rw [List.nil_append] at hat₀
    obtain ⟨x, hx, hbehind⟩ := lexStep_honest.at_leads hat₀ hl
    rw [hat.unique hbehind]
    obtain ⟨step, hreads, hstep, hs'⟩ := exists_reads hl hx
    have hpaired : ∀ {c more}, x = c :: more → c ≠ '\n' → Paired s before := by
      rintro c more rfl hc
      rcases ih hat₀ with hline | hpaired
      · exact absurd (hline c (by rw [hx]; rfl)) hc
      · exact hpaired
    cases hreads with
    | @blank c _ hb =>
      have hno : ∀ d ∈ ['"', '\n', '\\'], Cursor.isBlankChar d = false :=
        forall_mem_of_all (by decide)
      have hc : c ∉ ['"', '\n', '\\'] := by
        intro hm
        rw [hno c hm] at hb
        cases hb
      right
      refine (hpaired rfl ?_).plain (List.cons_ne_nil _ _) (List.forall_mem_singleton.mpr hc)
      rintro rfl
      exact hc (by decide)
    | newline => exact .inr ⟨by simp [lineSoFar_newline, quoteIndexes], fun h => by simp at h⟩
    | comment =>
      left
      rw [hs']
      change ∀ c ∈ s.cursor.takeLine.2.rest.head?, _
      rw [Cursor.takeLine_rest]
      intro c hc
      simpa using head?_dropWhile_stops (· != '\n') _ c hc
    | colon =>
      right
      exact (hpaired rfl (by decide)).plain (List.cons_ne_nil _ _) (forall_mem_of_all (by decide))
    | @str image _ hi =>
      right
      have hold := hpaired rfl (by decide)
      exact hold.string (hold.slash_ne hat₀ ha hr hl hstep) hi
    | @number c x _ hc hd =>
      right
      have hno := forall_mem_number hc hd
      refine (hpaired rfl ?_).plain (List.cons_ne_nil _ _) hno
      rintro rfl
      exact hno _ List.mem_cons_self (by decide)
    | word hc =>
      obtain ⟨more, hmore, ⟨hblank, hprev⟩ | ⟨-, hline⟩⟩ := word_rest s
      · right
        have hsplit := List.takeWhile_append_dropWhile (p := isPieWordChar) (l := s.cursor.rest)
        rw [hmore, ← List.append_assoc] at hsplit
        have hself : _ = wordAhead s ++ more :=
          List.append_cancel_right (hx.symm.trans (by rw [hs']; exact hsplit.symm))
        have hold := hpaired rfl (by
          rintro rfl
          exact absurd (hc _ List.mem_cons_self) (by decide))
        rw [hself]
        exact hold.word hat₀ (by rw [← hself]; simp) hblank (by rw [hs']; exact hprev)
      · left
        rw [hs']
        exact hline

/-! ## The repairs -/

/-- Where a repair replaces characters inside of a string or a word that starts at an offset: the
string without its marks, or the start of the word up to a character that ends words. -/
def placeInside (t : Text) (n : Nat) : ByteRange :=
  match t.slice n t.byteSize with
  | '"' :: rest => ⟨n + 1, n + Text.byteSize (Quoted.read rest).image⟩
  | rest => ⟨n, n + Text.byteSize (rest.takeWhile isWordChar)⟩

theorem slice_at (hat : s.cursor.At t before) :
    t.slice (Text.byteSize before) t.byteSize = s.cursor.rest := by
  have h := Text.slice_byteSize_append before s.cursor.rest
  rwa [← hat.text_eq] at h

/-- The edit has its cell among the readers of the scan of a text. -/
def Mended (t : Text) (edit : Edit) : Prop :=
  ∃ n n', Cell Piece (· = ·) t (lexStep.Stands (fun _ s => s) t) (placeInside t)
    (edit.resolve t, edit.newText) n n'

namespace StringAt

variable {inner behind : Text}

/-- The line of a string. -/
theorem exists_line (h : StringAt t pre tok post s before inner behind) :
    ∃ tail, LineAt t before (lineSoFar before) ('"' :: (inner ++ '"' :: tail)) ∧
      tail <+: behind := by
  obtain ⟨-, hline, -⟩ := Quoted.read_closed h.read_eq
  have hall : '"' :: (inner ++ ['"']) <+: s.cursor.rest :=
    ⟨behind, by rw [h.rest_eq]; simp⟩
  have hle := s.cursor.length_le_restOfLine hall (by simpa using hline) (by
    rw [← List.cons_append, List.getLast?_concat]
    decide)
  rw [List.length_cons] at hle
  obtain ⟨lead, ahead, hat, hrest, hahead⟩ :=
    h.cursor_at.exists_lineAt (List.ne_nil_of_length_pos (by omega))
  obtain ⟨tail, htail⟩ : '"' :: (inner ++ ['"']) <+: ahead := by
    refine List.prefix_of_prefix_length_le hall hahead ?_
    have := hrest.length_le
    rw [List.length_cons]
    omega
  have hcons : '"' :: (inner ++ '"' :: tail) = ahead := by
    rw [← htail]
    simp
  refine ⟨tail, ?_, ?_⟩
  · rwa [← hat.lead_eq, hcons]
  · rw [← hcons, h.rest_eq, ← List.cons_append, ← List.cons_append] at hahead
    simpa using hahead

theorem text_eq (h : StringAt t pre tok post s before inner behind) :
    t = before ++ ['"'] ++ inner ++ ['"'] ++ behind := by
  rw [h.cursor_at.text_eq, h.rest_eq]
  simp

theorem at_behind (h : StringAt t pre tok post s before inner behind) :
    (s.after (lexStep s)).cursor.At t (before ++ ('"' :: (inner ++ ['"']))) := by
  have hskip := h.cursor_at.skip (inner.length + 2)
  have htake : s.cursor.rest.take (inner.length + 2) = '"' :: (inner ++ ['"']) := by
    rw [h.rest_eq, take_quoted]
  rw [htake] at hskip
  change (lexStep s).cursor.At t _
  rw [h.step_eq]
  exact hskip

end StringAt

theorem escapedQuoteAt?_lt {x : Text} {i : Nat} (h : escapedQuoteAt? x = some i) :
    i + 1 < x.length := by
  have hle := (escapedQuoteAt?_starts h).length_le
  simp only [List.length_cons, List.length_nil, List.length_drop] at hle
  omega

/-- The escaped mark that is reported of a string stands between its marks. -/
theorem StringAt.place_of_escape {inner behind : Text}
    (h : StringAt t pre tok post s before inner behind) (hd : escapeFinding? tok = some d) :
    ∃ i ≤ inner.length + 1, d.place =
      ⟨max (placeAfter before).line 1, max ((lineSoFar before).length + 1 + i) 1⟩ := by
  have himage : tok.image.toList = '"' :: (inner ++ ['"']) := by
    rw [h.tok_eq]
    exact String.toList_ofList
  have hplace : tok.place = placeAfter before := by
    rw [h.tok_eq]
    exact h.cursor_at.place_eq
  have hcolumn : tok.column = (lineSoFar before).length + 1 := by
    rw [← placeAfter_column, ← hplace]
    rfl
  unfold escapeFinding? at hd
  split at hd
  · obtain ⟨i, hi, rfl⟩ := Option.map_eq_some_iff.mp hd
    have hlt := escapedQuoteAt?_lt hi
    refine ⟨i, ?_, ?_⟩
    · simp [himage] at hlt
      omega
    · rw [← hcolumn, ← hplace]
      rfl
  · cases hd

/-- The repair of a string replaces what stands between its marks by its encoded form. -/
theorem StringAt.edit_of_escape {inner behind : Text}
    (h : StringAt t pre tok post s before inner behind)
    (ha : StringsApart (scan t).lexed.tokens) (hd : escapeFinding? tok = some d)
    (hp : encodeLabel escapedQuoteRules [.quote] t (d.clampTo t) = .ok (some p))
    (he : edit ∈ p.edits) :
    encodeEntities escapedQuoteRules inner = .ok edit.newText ∧ edit.newText ≠ inner ∧
      edit.resolve t =
        ⟨Text.byteSize (before ++ ['"']), Text.byteSize (before ++ '"' :: inner)⟩ := by
  obtain ⟨tail, hline, -⟩ := h.exists_line
  have hpaired : Paired s before := by
    rcases paired_of_reaches ha h.reaches h.cursor_at with hend | hpaired
    · exact absurd (hend '"' (by rw [h.rest_eq]; rfl)) (by decide)
    · exact hpaired
  obtain ⟨i, hi, hplace⟩ := h.place_of_escape hd
  have hi' : i ≤ ('"' :: (inner ++ '"' :: tail)).length := by
    simp
    omega
  obtain ⟨hl, hcol⟩ := hline.clampTo hi' hplace
  obtain ⟨c, hc, hcases⟩ := encodeLabel_spec hp
  rw [hline.caret hi' hl hcol, Option.some.injEq] at hc
  have hspan : quoteSpan? (lineSoFar before ++ '"' :: (inner ++ '"' :: tail)) _ = some _ :=
    quoteSpan?_of_closed hpaired.even
      (hpaired.slash_ne h.cursor_at ha h.reaches h.leads h.step_eq) h.read_eq hi
  have hencl : enclosingSpan? c.line c.index [.quote] =
      some ⟨(lineSoFar before).length, (lineSoFar before).length + inner.length + 1⟩ := by
    rw [← hc]
    simp [enclosingSpan?, Delimiter.span?, hspan]
  rcases hcases with ⟨span, encoded, hfound, hencoded, hne, hedits⟩ | ⟨hnone, -⟩
  · rw [hencl, Option.some.injEq] at hfound
    rw [← hfound, ← hc, inside_of_closed h.read_eq] at hencoded hne hedits
    rw [hedits, List.mem_singleton] at he
    refine ⟨by rw [he]; exact hencoded, by rw [he]; exact hne, ?_⟩
    have htake : ('"' :: (inner ++ '"' :: tail)).take (1 + inner.length) = '"' :: inner := by
      rw [Nat.add_comm, List.take_succ_cons, List.take_left]
    have hrange := hline.resolve_replaceSpan (k := 1) (n := inner.length) (by simp; omega)
      encoded
    rw [htake, List.take_succ_cons, List.take_zero] at hrange
    rw [he, hl]
    exact hrange
  · rw [hencl] at hnone
    cases hnone

/-- The repair of a string encodes the marks that stand behind backslashes in it. -/
theorem mended_escape (ha : StringsApart (scan t).lexed.tokens) {inner behind : Text}
    (h : StringAt t pre tok post s before inner behind) (hd : escapeFinding? tok = some d)
    (hp : encodeLabel escapedQuoteRules [.quote] t (d.clampTo t) = .ok (some p))
    (he : edit ∈ p.edits) : Mended t edit := by
  obtain ⟨hencoded, hne, hrange⟩ := h.edit_of_escape ha hd hp he
  have htext := h.text_eq
  refine ⟨Text.byteSize before, Text.byteSize (before ++ ('"' :: (inner ++ ['"']))),
    .inside ⟨?_, ?_, s, s.after (lexStep s), _, ?_, ?_, rfl, ?_⟩ ?_ ?_ ?_⟩
  · rw [hrange]
    simp
  · rw [hrange]
    simp
  · exact ⟨s, before, h.reaches, h.cursor_at, rfl, rfl⟩
  · exact ⟨_, _, h.reaches.tail h.leads, h.at_behind, rfl, rfl⟩
  · rw [hrange]
    have hpre : t.slice (Text.byteSize before) (Text.byteSize (before ++ ['"'])) = ['"'] := by
      rw [htext, List.append_assoc, List.append_assoc]
      exact Text.slice_append before ['"'] _
    have hpost : t.slice (Text.byteSize (before ++ ('"' :: inner)))
        (Text.byteSize (before ++ ('"' :: (inner ++ ['"'])))) = ['"'] := by
      rw [htext]
      have hslice := Text.slice_append (before ++ ('"' :: inner)) ['"'] behind
      simpa using hslice
    dsimp only
    rw [hpre, hpost]
    exact .single (.string h.leads (by rw [h.rest_eq]; rfl)
      (read_encodeEntities h.read_eq hencoded))
  · rw [hrange]
    cases inner with
    | nil => exact absurd (Except.ok.inj hencoded).symm hne
    | cons c inner =>
      have := Char.utf8Size_pos c
      simp
      omega
  · exact fun hk => hk.outside h.reaches h.leads h.cursor_at h.at_behind
  · rw [hrange]
    unfold placeInside
    have hread := Quoted.read_closed_append h.read_eq behind
    rw [List.append_assoc, List.singleton_append] at hread
    have hsize : '"'.utf8Size = 1 := rfl
    rw [slice_at h.cursor_at, h.rest_eq]
    simp [hread, Quoted.image, hsize]
    omega

/-- White space within a line is passed as a blank. -/
theorem lexStep_whiteSpace (hl : lexStep.Leads s s') {c : Char} {rest : Text}
    (hrest : s.cursor.rest = c :: rest) (hw : isWhiteSpace c = true) (hn : c ≠ '\n') :
    lexStep s = .nothing s.cursor.next := by
  have hsigns : ['%', ':', '"', '-'].contains c = false := contains_eq_false_of_all (by decide) hw
  have htook := lexStep_took hl hrest
  generalize lexStep s = y at htook ⊢
  cases htook with
  | blank => rfl
  | newline h => exact absurd h hn
  | comment h => simp [h.1] at hsigns
  | colon h | str h => simp [h] at hsigns
  | number h =>
    have hdash : (c == '-') = false := by simp_all
    rw [isDigit_of_isWhiteSpace hw, hdash] at h
    cases h
  | word h =>
    rw [isPieWordChar, hw] at h
    cases h

/-- The repair of a missing colon puts it right behind the label. -/
theorem mended_colon (hc : lexStep.Clean (Reader.ofText t)) {inner behind : Text}
    (h : StringAt t pre tok post s before inner behind)
    (hp : insertText ": ".toList .caret .safe t
      ((explain (.missingColon tok.endPlace)).clampTo t) = some p)
    (he : edit ∈ p.edits) : Mended t edit := by
  obtain ⟨tail, hline, ⟨below, hbelow⟩⟩ := h.exists_line
  have himage : tok.image.toList = '"' :: (inner ++ ['"']) := by
    rw [h.tok_eq]
    exact String.toList_ofList
  have hplace : (explain (.missingColon tok.endPlace)).place =
      ⟨max (placeAfter before).line 1,
        max ((lineSoFar before).length + 1 + tok.image.toList.length) 1⟩ := by
    rw [← placeAfter_column, ← h.cursor_at.place_eq, h.tok_eq, String.length_toList]
    rfl
  rw [himage] at hplace
  obtain ⟨hnew, hcases⟩ := hline.insertText
    (show _ = '"' :: (inner ++ ['"']) ++ tail by simp) hplace hp he
  have hreach := h.reaches.tail h.leads
  have hat := h.at_behind
  have hfollows : (s.after (lexStep s)).follows false (· == .str) = true := by
    rw [h.step_eq]
    rfl
  have hrest : (s.after (lexStep s)).cursor.rest = tail ++ below := by
    have htext := hat.text_eq.symm.trans h.text_eq
    rw [← hbelow] at htext
    simpa using htext
  generalize s.after (lexStep s) = r at hreach hat hfollows hrest
  have hstart : lexStep.Stands (fun _ s => s) t
      (Text.byteSize (before ++ ('"' :: (inner ++ ['"'])))) r := ⟨_, _, hreach, hat, rfl, rfl⟩
  refine ⟨_, _, .tight ?_⟩
  rw [hnew]
  rcases hcases with ⟨c, more, htail, hw, hrange⟩ | hrange
  · -- the white space behind the label gives way to the colon
    rw [htail, List.cons_append] at hrest
    have hn : c ≠ '\n' := by
      rintro rfl
      apply hline.newline_not_mem
      simp [htail]
    have hleads := (hc.of_reaches hreach).leads (by rw [hrest]; exact List.cons_ne_nil _ _)
    have hblank := lexStep_whiteSpace hleads hrest hw hn
    have hnext := hat.next
    rw [hrest, List.take_succ_cons, List.take_zero, List.append_assoc] at hnext
    rw [hrange]
    refine Mends.of_tight hstart ⟨_, _, hreach.tail hleads, ?_, rfl, rfl⟩ rfl
      (.single (.colon hfollows ?_ ?_))
    all_goals rw [hblank]
    · exact hnext
    · rfl
    · exact Bool.or_false _
  · rw [hrange]
    exact Mends.of_tight hstart hstart rfl (.single (.colon hfollows rfl rfl))

/-- Where a plain word of a chart is read. -/
theorem exists_wordAt (hc : lexStep.Clean (Reader.ofText t))
    (ht : (scan t).lexed.tokens = pre ++ tok :: post) (hk : tok.kind = .word) :
    ∃ s before, lexStep.Reaches (Reader.ofText t) s ∧ lexStep.Leads s (s.after (lexStep s)) ∧
      s.cursor.At t before ∧ (lexStep s).tokens = [tok] ∧ tok.image.toList = wordAhead s ∧
      tok.place = placeAfter before := by
  obtain ⟨s, earlier, later, hr, hne, hsteps, -⟩ := hc.exists_reader ht (by rw [hk]; decide)
  have hleads := (hc.of_reaches hr).leads hne
  obtain ⟨before, hat⟩ := lexStep_honest.at_reaches (Cursor.at_ofText t) hr
  obtain ⟨c, rest, hrest⟩ := List.exists_cons_of_ne_nil hne
  have hmem : tok ∈ (lexStep s).tokens := by rw [hsteps]; simp
  have htook := lexStep_took hleads hrest
  generalize hy : lexStep s = y at htook hmem
  cases htook with
  | blank | comment => cases hmem
  | newline | colon | str | number =>
    rw [List.mem_singleton.mp hmem] at hk
    cases hk
  | word =>
    have hplain : wordKindAhead s ≠ .title := by
      intro htitle
      obtain ⟨later, htoks, htext⟩ := word_tokens s
      have hfirst := word_title htitle
      rw [htoks] at hmem
      rcases List.mem_cons.mp hmem with hself | hmem
      · rw [hfirst, ← hself] at htoks
        rw [← (List.cons.inj htoks).1] at hk
        cases hk
      · rw [htext tok hmem] at hk
        cases hk
    rw [word_plain hplain] at hy hmem
    rw [List.mem_singleton] at hmem
    refine ⟨s, before, hr, hleads, hat, by rw [hy, hmem], ?_, ?_⟩
    · rw [hmem]
      exact String.toList_ofList
    · rw [hmem]
      exact hat.place_eq

/-- The repair of a misspelled keyword replaces the characters that its word starts with. -/
theorem exists_edit_of_keyword (hc : lexStep.Clean (Reader.ofText t)) {place : Position}
    {word suggestion : String} {first : Tok}
    (hword : Misspelled (scan t).lexed.tokens place word suggestion pre first tok post)
    (hp : replaceKeyword repairKeywords t
      ((explain (.misspelledKeyword place word suggestion)).clampTo t) = some p)
    (he : edit ∈ p.edits) :
    ∃ s before, lexStep.Reaches (Reader.ofText t) s ∧ lexStep.Leads s (s.after (lexStep s)) ∧
      s.cursor.At t before ∧ (lexStep s).tokens = [tok] ∧ edit.newText = suggestion.toList ∧
      (wordAhead s).takeWhile isWordChar ≠ [] ∧
      edit.resolve t = ⟨Text.byteSize before,
        Text.byteSize (before ++ (wordAhead s).takeWhile isWordChar)⟩ := by
  obtain ⟨_, _, _, hapart⟩ := hword.standsApart hc
  have htoks := hword.tokens
  rw [← List.singleton_append, ← List.append_assoc] at htoks
  obtain ⟨s, before, hr, hl, hat, htok, himage, hplace⟩ := exists_wordAt hc htoks hword.kind
  have hpos := hapart.word_length
  rw [hword.word_eq, himage] at hpos
  obtain ⟨lead, ahead, hline, -, -⟩ := hat.exists_lineAt (List.ne_nil_of_length_pos
    (Nat.lt_of_lt_of_le hpos (s.cursor.takeWhile_length_le (by decide) (by decide))))
  replace hapart := hapart.move hline (by rw [← hplace, ← hapart.place_eq, hword.place_eq])
  have hnamed := hintedKeyword?_of_mem (by decide) hword.suggestion_mem
  obtain ⟨hmoved, hrewrites⟩ := hapart.rewrites rfl rfl rfl hnamed hp
  have htakes := hapart.takes rfl hp
  have hchars : word.toList = wordAhead s := by rw [hword.word_eq, himage]
  rw [hchars] at hrewrites htakes
  -- the characters of the word that give way, and those that stay
  obtain ⟨w, hw⟩ := List.takeWhile_prefix (l := wordAhead s) isWordChar
  generalize htaken : (wordAhead s).takeWhile isWordChar = taken at hrewrites htakes hw
  obtain ⟨tail, htail⟩ := hapart.word_isPrefix
  rw [hchars, ← hw, List.append_assoc] at htail
  have hrange := hline.resolve_replaceSpan (k := 0) (n := taken.length)
    (by rw [← htail]; simp) suggestion.toList
  rw [← htail, Nat.zero_add, List.take_left, List.take_zero, List.append_nil, Nat.add_zero] at hrange
  have hdline := congrArg Position.line (hmoved.trans hapart.place_eq)
  have hdcolumn := (congrArg Position.column (hmoved.trans hapart.place_eq)).trans hline.column_eq
  have hedit : edit = .replaceSpan (placeAfter before).line (lead.length + 1) taken.length
      suggestion.toList := by
    rw [hrewrites.proposal] at he
    rw [List.mem_singleton.mp he]
    exact congrArg₂ (fun l c => Edit.replaceSpan l c taken.length suggestion.toList) hdline hdcolumn
  refine ⟨s, before, hr, hl, hat, htok, ?_⟩
  rw [hedit, htaken]
  exact ⟨rfl, List.ne_nil_of_length_pos htakes, hrange⟩

/-- The repair of a misspelled keyword makes a keyword of its word. -/
theorem mended_keyword (hc : lexStep.Clean (Reader.ofText t)) {place : Position}
    {word suggestion : String} {first : Tok}
    (hword : Misspelled (scan t).lexed.tokens place word suggestion pre first tok post)
    (hp : replaceKeyword repairKeywords t
      ((explain (.misspelledKeyword place word suggestion)).clampTo t) = some p)
    (he : edit ∈ p.edits) : Mended t edit := by
  obtain ⟨s, before, hr, hl, hat, htok, hnew, htakes, hrange⟩ :=
    exists_edit_of_keyword hc hword hp he
  have hplain := lexStep_plain hl htok hword.kind
  obtain ⟨w, hw⟩ := List.takeWhile_prefix (l := wordAhead s) isWordChar
  generalize htaken : (wordAhead s).takeWhile isWordChar = taken at hrange htakes hw
  obtain ⟨x, hx, hbehind⟩ := lexStep_honest.at_leads hat hl
  have hsplit : s.cursor.rest = wordAhead s ++ (s.after (lexStep s)).cursor.rest := by
    rw [hplain.1, rest_after_plain (by rw [hplain.2]; decide), wordAhead,
      List.takeWhile_append_dropWhile]
  obtain rfl : x = wordAhead s := List.append_cancel_right (hx.symm.trans hsplit)
  have htext : t = before ++ taken ++ w ++ (s.after (lexStep s)).cursor.rest := by
    rw [List.append_assoc before, hw]
    exact hbehind.text_eq
  refine ⟨Text.byteSize before, Text.byteSize (before ++ wordAhead s),
    .inside ⟨?_, ?_, s, s.after (lexStep s), _, ?_, ?_, rfl, ?_⟩ ?_ ?_ ?_⟩
  · rw [hrange]
  · rw [hrange, ← hw]
    simp
  · exact ⟨s, before, hr, hat, rfl, rfl⟩
  · exact ⟨_, _, hr.tail hl, hbehind, rfl, rfl⟩
  · rw [hrange]
    have hpre : t.slice (Text.byteSize before) (Text.byteSize before) = [] := by
      simp [Text.slice]
    have hpost : t.slice (Text.byteSize (before ++ taken)) (Text.byteSize (before ++ wordAhead s))
        = w := by
      rw [htext, ← hw, ← List.append_assoc before]
      exact Text.slice_append _ _ _
    dsimp only
    rw [hpre, hpost, hnew, List.nil_append]
    refine .single (.keyword hl htok hword.kind hword.suggestion_mem ?_)
    intro c hc
    exact List.mem_takeWhile_imp (l := s.cursor.rest)
      (show c ∈ wordAhead s by rw [← hw]; exact List.mem_append_right _ hc)
  · rw [hrange]
    have hsize : Text.byteSize taken ≠ 0 := fun h => htakes (Text.byteSize_eq_zero h)
    simp only [Text.byteSize_append]
    omega
  · exact fun hk => hk.outside hr hl hat hbehind
  · rw [hrange]
    unfold placeInside
    rw [slice_at hat]
    split
    · rename_i rest hquote
      rw [wordAhead, hquote] at htaken
      exact absurd htaken.symm htakes
    · rw [takeWhile_isWordChar, ← wordAhead, htaken, Text.byteSize_append]

/-! ## The safe repairs -/

theorem escapeFinding?_spec (h : escapeFinding? tok = some d) :
    tok.kind = .str ∧ d.code = some Code.labelEscapedQuote := by
  unfold escapeFinding? at h
  split at h
  · obtain ⟨i, -, rfl⟩ := Option.map_eq_some_iff.mp h
    exact ⟨‹_›, rfl⟩
  · cases h

/-- The repairs of what the parser reports. -/
theorem mended_of_error (hc : lexStep.Clean (Reader.ofText t)) {e : ParseError}
    (he : e ∈ (parse (scan t).lexed.tokens).errors) {code : String} {c : Candidate}
    (hcode : (explain e).code = some code)
    (hcandidate : candidate? Registry.builtin t .safe code ((explain e).clampTo t) =
      .ok (some c))
    (hedit : edit ∈ c.proposal.edits) : Mended t edit := by
  cases e with
  | missingColon place =>
    obtain ⟨-, hp⟩ := candidate?_safe (.insertText ": ".toList .caret .safe) hcandidate
      (by rw [← Option.some.inj hcode]; rfl)
    rcases parse_reports he with h | ⟨pre, first, tok, post, hts, -, hreported⟩
    · cases h
    · cases hreported with
      | missingColon hk =>
        rw [← List.singleton_append, ← List.append_assoc] at hts
        obtain ⟨s, before, inner, behind, hat⟩ := exists_stringAt hc hts hk
        exact mended_colon hc hat (Except.ok.inj hp) hedit
  | misspelledKeyword place word suggestion =>
    obtain ⟨-, hp⟩ := candidate?_safe (.replaceKeyword repairKeywords) hcandidate
      (by rw [← Option.some.inj hcode]; rfl)
    obtain ⟨pre, first, tok, post, hword⟩ := parse_misspelled he
    exact mended_keyword hc hword (Except.ok.inj hp) hedit
  | unquotedLabel | unexpected =>
    obtain ⟨strategy, hs, -⟩ := candidate?_eq_some hcandidate
    rw [← Option.some.inj hcode] at hs
    cases hs

theorem mended_of_mem {options : LintOptions} {l : Lexed Kind} (hl : scan t = .finished l)
    (hc : l.errors = []) (ha : StringsApart l.tokens) {edits : List Edit}
    (hedits : selectEdits Registry.builtin t (grammar.report t options l).diagnostics .safe =
      .ok edits) (he : edit ∈ edits) : Mended t edit := by
  have hclean : lexStep.Clean (Reader.ofText t) := (Scan.errors_eq_nil_iff hl).mp hc
  obtain rfl : (scan t).lexed = l := by rw [hl]; rfl
  obtain ⟨d, hd, code, c, hcode, hcandidate, hedit⟩ :=
    exists_candidate_of_mem_selectEdits hedits he
  obtain ⟨strategy, hregistered, -⟩ := candidate?_eq_some hcandidate
  obtain ⟨found, hfound, rfl⟩ := Grammar.exists_finding_of_mem_report hd
  have hcode : found.code = some code := hcode
  cases hfound with
  | @lexical e hmem =>
    have hmem : e ∈ (scan t).lexed.errors := hmem
    rw [hc] at hmem
    cases hmem
  | postLex hpost =>
    obtain ⟨tok, htok, hf⟩ := List.mem_filterMap.mp hpost
    obtain ⟨hk, hescaped⟩ := escapeFinding?_spec hf
    obtain ⟨-, hp⟩ := candidate?_safe (.encodeLabel escapedQuoteRules [.quote]) hcandidate
      (by rw [← Option.some.inj (hescaped.symm.trans hcode)]; rfl)
    obtain ⟨pre, post, hsplit⟩ := List.append_of_mem htok
    obtain ⟨s, before, inner, behind, hat⟩ := exists_stringAt hclean hsplit hk
    exact mended_escape ha hat hf hp hedit
  | parsing _ hmem => exact mended_of_error hclean hmem hcode hcandidate hedit
  | analysis _ _ hok hmem =>
    -- no repair is registered for the findings on slices
    obtain ⟨own, hown, heq⟩ := grammar_codes.analyze _ _ _ _ hok found hmem
    obtain rfl : own = code := Option.some.inj (heq.symm.trans hcode)
    have hnone : ∀ code ∈ treeCodes, Registry.builtin.get? code = none := by decide
    rw [hnone own hown] at hregistered
    cases hregistered
  | failure _ _ hfailed => cases hfailed
  | postParse tree prior hend => cases hend

/-- What a step reads is a piece. -/
theorem lexStep_spells : lexStep.Spells Piece (· = ·) fun _ s => s := by
  refine LexStep.spells_of_steps fun s s' hl => ?_
  obtain ⟨c, rest, hrest⟩ := List.exists_cons_of_ne_nil hl.rest
  rcases lexStep_passes_or_stays hrest with hpass | ⟨hstays, -⟩
  · obtain ⟨n, -, hmove⟩ := hpass.moves
    have hx : s.cursor.rest = s.cursor.rest.take n ++ s'.cursor.rest := by
      rw [hl.after]
      change _ = _ ++ (lexStep s).cursor.rest
      rw [hmove, Cursor.skip_rest, List.take_append_drop]
    exact ⟨_, hx, .step hl hx⟩
  · have hlt := hl.length_lt
    rw [hl.after] at hlt
    change (lexStep s).cursor.rest.length < _ at hlt
    rw [hstays] at hlt
    exact absurd hlt (Nat.lt_irrefl _)

/-- A pass of safe repairs leaves a pie chart that is read without an error, if the chart was and
no string opens right behind a backslash. -/
theorem errors_safe_pass {options : LintOptions} {l : Lexed Kind} (hl : scan t = .finished l)
    (hc : l.errors = []) (ha : StringsApart l.tokens) {edits : List Edit}
    (hedits : selectEdits Registry.builtin t (grammar.report t options l).diagnostics .safe =
      .ok edits) : ∃ l', scan (t.splice edits) = .finished l' ∧ l'.errors = [] := by
  have hclean : lexStep.Clean (Reader.ofText t) := (Scan.errors_eq_nil_iff hl).mp hc
  obtain ⟨-, e, -, -, hspell⟩ := (hclean.stations lexStep_honest lexStep_spells graded_eq).spells_edits
    graded_eq (placeInside t) (List.pairwise_map.mpr (selectEdits_apart hedits))
    fun edit hedit => mended_of_mem hl hc ha hedits hedit
  exact Scan.clean_iff.mpr (clean_of_spells hspell)

end Pie

end DiagramLint
