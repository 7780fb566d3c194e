-- Misspelled keywords in pie charts. The parser reports one at the first word
-- of a statement, behind a line end, the header or `showData`. A word goes up
-- to white space, a colon or a quotation mark, so it stands apart in the text,
-- but it may hold characters that repairs take for the end of a word.
import DiagramLint.Pie.Language
import DiagramLint.Proofs.Lexing.Gaps
import DiagramLint.Proofs.Pie.Parser
import DiagramLint.Proofs.Pie.Statements
import DiagramLint.Proofs.Pie.Steps
import DiagramLint.Proofs.Repair.Keywords
import DiagramLint.Proofs.Spelling

namespace DiagramLint.Pie

/-! ## Where the parser reports them -/

/-- The error is about a token that does not belong where it is. -/
def ParseError.IsUnexpected : ParseError → Prop
  | .unexpected _ _ _ _ => True
  | _ => False

theorem unexpected_isUnexpected (expected : String) (ts : Toks) :
    ∀ e ∈ (unexpected expected ts : List ParseError), e.IsUnexpected :=
  forall_mem_unexpected fun _ _ _ => trivial

theorem refuse_isUnexpected {α : Type} (expected : String) (ts : Toks) :
    ∀ e ∈ (refuse expected ts : Read α).errors, e.IsUnexpected :=
  unexpected_isUnexpected expected ts

theorem entryValue_isUnexpected (label : String) (place : Position) (ts : Toks) :
    ∀ e ∈ (entryValue label place ts).errors, e.IsUnexpected := by
  unfold entryValue
  split
  · split
    · split
      · exact fun e he => by cases he
      · exact refuse_isUnexpected _ _
    · exact refuse_isUnexpected _ _
  · exact refuse_isUnexpected _ _

/-- What a statement can report besides a token that does not belong where it is. -/
inductive Reported (t : Tok) (ts : Toks) : ParseError → Prop where
  | missingColon (hk : t.kind = .str) (hnext : kindAhead ts = .number) :
    Reported t ts (.missingColon t.endPlace)
  | unquotedLabel (hk : t.kind = .word) (length : Nat) (label : String) :
    Reported t ts (.unquotedLabel t.place length label)
  | misspelledKeyword (hk : t.kind = .word) {suggestion : String}
    (hs : misspelled t ts = some suggestion) :
    Reported t ts (.misspelledKeyword t.place t.image suggestion)

theorem quotedEntry_reports {t : Tok} {ts : Toks} (hk : t.kind = .str) {e : ParseError}
    (h : e ∈ (quotedEntry t ts).errors) : e.IsUnexpected ∨ Reported t ts e := by
  unfold quotedEntry at h
  split at h
  · split at h
    · exact .inl (entryValue_isUnexpected _ _ _ e h)
    · split at h
      · rename_i hnumber
        rcases List.mem_cons.mp h with rfl | h
        · exact .inr (.missingColon hk hnumber)
        · exact .inl (entryValue_isUnexpected _ _ _ e h)
      · exact .inl (refuse_isUnexpected _ _ e h)
  · exact .inl (refuse_isUnexpected _ _ e h)

theorem bareEntry_reports {t : Tok} {ts : Toks} (hk : t.kind = .word) {e : ParseError}
    (h : e ∈ (bareEntry t ts).errors) : e.IsUnexpected ∨ Reported t ts e := by
  unfold bareEntry at h
  split at h
  · rename_i found hfound
    rw [List.mem_singleton.mp h]
    exact .inr (.misspelledKeyword hk hfound)
  · dsimp only at h
    split at h
    · split at h
      · rcases List.mem_cons.mp h with rfl | h
        · exact .inr (.unquotedLabel hk _ _)
        · exact .inl (entryValue_isUnexpected _ _ _ e h)
      · exact .inl (refuse_isUnexpected _ _ e h)
    · exact .inl (refuse_isUnexpected _ _ e h)

theorem endLine_reports {r : Read Part} {e : ParseError} (h : e ∈ (endLine r).errors) :
    e.IsUnexpected ∨ e ∈ r.errors := by
  unfold endLine at h
  split at h
  · exact .inr h
  · rcases List.mem_append.mp h with h | h
    · exact .inr h
    · exact .inl (unexpected_isUnexpected _ _ e h)

/-- A statement reports something else only about its first token. -/
theorem statement_reports {t : Tok} {ts : Toks} {e : ParseError}
    (h : e ∈ (statement t ts).errors) : e.IsUnexpected ∨ Reported t ts e := by
  unfold statement at h
  split at h
  · cases h
  · cases h
  · rcases endLine_reports h with h | h
    · exact .inl h
    · cases h
  · rcases endLine_reports h with h | h
    · exact .inl h
    · exact quotedEntry_reports ‹_› h
  · rcases endLine_reports h with h | h
    · exact .inl h
    · exact bareEntry_reports ‹_› h
  · rcases endLine_reports h with h | h
    · exact .inl h
    · exact .inl (unexpected_isUnexpected _ (t :: ts) e h)

/-- The kinds of the tokens that a statement can start right behind. -/
def Kind.precedes : Kind → Bool
  | .header | .newline | .showData => true
  | _ => false

/-- Every statement starts right behind one of these, if the first one does. -/
theorem mem_statements_behind {ts : Toks} {item : Option Part × List ParseError}
    (h : item ∈ statements ts) {before : Tok}
    (hbefore : before.kind.precedes = true ∨ (kindAhead ts).endsLine = true) :
    ∃ pre first t rest, before :: ts = pre ++ first :: t :: rest ∧
      (first.kind.precedes = true ∨ t.kind.endsLine = true) ∧
      item = ((statement t rest).value, (statement t rest).errors) := by
  fun_induction statements ts generalizing before with
  | case1 => cases h
  | case2 => cases h
  | case3 t rest hk ih =>
    rcases List.mem_cons.mp h with rfl | h
    · exact ⟨[], before, t, rest, rfl, hbefore, rfl⟩
    · rcases statement_rest t rest with ⟨hkind, hrest⟩ | ⟨⟨taken, htaken⟩, hends⟩
      · have hprecedes : t.kind.precedes = true := by
          rcases hkind with hkind | hkind
          all_goals
            rw [hkind]
            rfl
        obtain ⟨pre, first, t', rest', hts, hfirst, hitem⟩ := ih h (.inl hprecedes)
        rw [hrest] at hts
        exact ⟨before :: pre, first, t', rest', by rw [hts]; rfl, hfirst, hitem⟩
      · -- the last token of the statement stands before the end of its line
        obtain ⟨init, last, hlast⟩ : ∃ init last, t :: taken = init ++ [last] := by
          rcases List.eq_nil_or_concat (t :: taken) with hnil | ⟨init, last, hlast⟩
          · cases hnil
          · exact ⟨init, last, by rw [hlast, List.concat_eq_append]⟩
        have hbehind : last.kind.precedes = true ∨ _ := .inr hends
        obtain ⟨pre, first, t', rest', hts, hfirst, hitem⟩ := ih h hbehind
        refine ⟨before :: init ++ pre, first, t', rest', ?_, hfirst, hitem⟩
        calc before :: t :: rest
            = before :: (t :: taken ++ (statement t rest).rest) := by
              rw [List.cons_append, htaken]
          _ = before :: init ++ last :: (statement t rest).rest := by
              rw [hlast]
              simp
          _ = before :: init ++ pre ++ first :: t' :: rest' := by
              rw [hts, List.append_assoc]

/-- The tokens around a misspelled keyword among the tokens of a chart. -/
structure Misspelled (ts : Toks) (place : Position) (word suggestion : String) (pre : Toks)
    (first tok : Tok) (post : Toks) : Prop where
  tokens : ts = pre ++ first :: tok :: post
  first_precedes : first.kind.precedes = true
  kind : tok.kind = .word
  place_eq : place = tok.place
  word_eq : word = tok.image
  suggestion_mem : suggestion ∈ keywords

theorem Misspelled.mem {ts pre post : Toks} {place : Position} {word suggestion : String}
    {first tok : Tok} (h : Misspelled ts place word suggestion pre first tok post) : tok ∈ ts := by
  rw [h.tokens]
  simp

/-- What the parser reports of a chart besides tokens that do not belong where they are stems from
a statement, behind a line end, the header or `showData`. -/
theorem parse_reports {ts : Toks} {e : ParseError} (h : e ∈ (parse ts).errors) :
    e.IsUnexpected ∨ ∃ pre first tok post, ts = pre ++ first :: tok :: post ∧
      (first.kind.precedes = true ∨ tok.kind.endsLine = true) ∧ Reported tok post e := by
  unfold parse at h
  split at h
  · cases h
  · rename_i header rest hts
    obtain ⟨above, habove⟩ : (header :: rest) <:+ ts := by
      rw [← hts]
      exact List.dropWhile_suffix _
    split at h
    · rename_i hheader
      obtain ⟨item, hitem, he⟩ := List.mem_flatMap.mp h
      obtain ⟨pre, first, t, post, hbehind, hfirst, rfl⟩ :=
        mem_statements_behind hitem (.inl (show header.kind.precedes = true by rw [hheader]; rfl))
      refine (statement_reports he).imp_right fun hreported =>
        ⟨above ++ pre, first, t, post, ?_, hfirst, hreported⟩
      rw [← habove, hbehind, List.append_assoc]
    · exact .inl (unexpected_isUnexpected _ (header :: rest) e h)

theorem parse_misspelled {ts : Toks} {place : Position} {word suggestion : String}
    (h : .misspelledKeyword place word suggestion ∈ (parse ts).errors) :
    ∃ pre first tok post, Misspelled ts place word suggestion pre first tok post := by
  rcases parse_reports h with h | ⟨pre, first, tok, post, hts, hfirst, hreported⟩
  · cases h
  · cases hreported with
    | misspelledKeyword hk hfound =>
      refine ⟨pre, first, tok, post, hts, ?_, hk, rfl, rfl, ?_⟩
      · rcases hfirst with hfirst | hends
        · exact hfirst
        · rw [hk] at hends
          cases hends
      · unfold misspelled at hfound
        split at hfound
        · cases hfound
        · exact nearestKeyword_mem hfound

/-! ## Words in the text -/

theorem lexStep_parts : LexStep.Parts Kind.newline lexStep where
  silent := by
    intro s s' hl hnone
    obtain ⟨c, rest, hrest⟩ := List.exists_cons_of_ne_nil hl.rest
    have htook := lexStep_took hl hrest
    rw [hl.after]
    change (∃ c, s.cursor.rest = c :: (lexStep s).cursor.rest ∧ _) ∨ (lexStep s).cursor.rest = _
    generalize lexStep s = y at htook hnone
    cases htook with
    | blank hb =>
      refine .inl ⟨c, ?_, hb⟩
      change s.cursor.rest = c :: s.cursor.next.rest
      rw [Cursor.next_rest, hrest]
      rfl
    | comment hc => exact .inr (s.cursor.takeLine_rest)
    | word hc =>
      obtain ⟨later, htoks, -⟩ := word_tokens s
      rw [htoks] at hnone
      cases hnone
    | _ => cases hnone
  lineFeed := by
    intro s rest hrest
    have hstep : lexStep s = lexeme .newline 1 s.cursor := by
      unfold lexStep
      rw [hrest]
      rfl
    exact ⟨_, by rw [hstep]; rfl, rfl⟩

/-- A word that is no title is the only token of its step. -/
theorem word_eq {s : Reader Kind} {tok : Tok} {later : Toks} (h : (word s).tokens = tok :: later)
    (hk : tok.kind ≠ .title) :
    later = [] ∧
      (word s).cursor = s.cursor.skip (s.cursor.rest.takeWhile isPieWordChar).length ∧
      tok = Token.ofText tok.kind
        (s.cursor.rest.take (s.cursor.rest.takeWhile isPieWordChar).length) s.cursor.place := by
  obtain ⟨more, htoks, -⟩ := word_tokens s
  rw [htoks] at h
  have htok := (List.cons.inj h).1
  have hkind : (wordKind s (String.ofList
      (s.cursor.rest.take (s.cursor.rest.takeWhile isPieWordChar).length)) == Kind.title) = false := by
    rw [← htok] at hk
    exact beq_eq_false_iff_ne.mpr hk
  unfold word at htoks ⊢
  dsimp only [Cursor.takeWhile, Cursor.take, Token.ofText] at htoks ⊢
  rw [hkind] at htoks ⊢
  refine ⟨?_, rfl, ?_⟩
  · rw [← (List.cons.inj h).2]
    exact (List.cons.inj htoks).2.symm
  · rw [← htok]
    rfl

/-- A step that yields a word takes it up to where no word goes on. -/
theorem lexStep_word {s s' : Reader Kind} (hl : lexStep.Leads s s') {tok : Tok} {later : Toks}
    (h : (lexStep s).tokens = tok :: later) (hk : tok.kind = .word) :
    (∃ c, s.cursor.rest.head? = some c ∧ isPieWordChar c = true) ∧
      tok = Token.ofText .word (s.cursor.rest.takeWhile isPieWordChar) s.cursor.place := by
  obtain ⟨c, rest, hrest⟩ := List.exists_cons_of_ne_nil hl.rest
  have htook := lexStep_took hl hrest
  generalize lexStep s = y at htook h
  cases htook with
  | blank | comment => cases h
  | newline | colon | str | number =>
    rw [← (List.cons.inj h).1] at hk
    cases hk
  | word hc =>
    refine ⟨⟨c, by rw [hrest]; rfl, hc⟩, ?_⟩
    obtain ⟨-, -, htok⟩ := word_eq h (by rw [hk]; decide)
    rw [hk, ← List.prefix_iff_eq_take.mp (List.takeWhile_prefix _)] at htok
    exact htok

/-- A step for a token that a statement can start behind yields it alone, and passes a line feed or
a word. -/
theorem lexStep_precedes {s s' : Reader Kind} (hl : lexStep.Leads s s') {tok : Tok}
    (h : tok ∈ (lexStep s).tokens) (hk : tok.kind.precedes = true) :
    (lexStep s).tokens = [tok] ∧ ∃ n, (lexStep s).cursor = s.cursor.skip n ∧
      (s.cursor.rest.take n = ['\n'] ∨
        (s.cursor.skip n).rest = s.cursor.rest.dropWhile isPieWordChar) := by
  obtain ⟨c, rest, hrest⟩ := List.exists_cons_of_ne_nil hl.rest
  have htook := lexStep_took hl hrest
  generalize lexStep s = y at htook h ⊢
  cases htook with
  | blank | comment => cases h
  | newline hn =>
    refine ⟨by rw [List.mem_singleton.mp h]; rfl, 1, rfl, .inl ?_⟩
    rw [hrest, hn]
    rfl
  | colon | str | number =>
    rw [List.mem_singleton.mp h] at hk
    cases hk
  | word hc =>
    obtain ⟨later, htoks, htext⟩ := word_tokens s
    rw [htoks] at h
    rcases List.mem_cons.mp h with htok | hm
    · rw [← htok] at htoks
      have htitle : tok.kind ≠ .title := by
        intro hk'
        rw [hk'] at hk
        cases hk
      obtain ⟨hlater, hcursor, -⟩ := word_eq htoks htitle
      rw [hlater] at htoks
      exact ⟨htoks, _, hcursor, .inr (s.cursor.skip_takeWhile_rest isPieWordChar)⟩
    · rw [htext tok hm] at hk
      cases hk

/-- The line goes on behind a word with no character of a word. -/
theorem takeWhile_isWordChar (t : Text) :
    t.takeWhile isWordChar = (t.takeWhile isPieWordChar).takeWhile isWordChar := by
  conv_lhs => rw [← List.takeWhile_append_dropWhile (p := isPieWordChar) (l := t)]
  rw [List.takeWhile_append]
  split
  · rename_i hall
    have hstop : (t.dropWhile isPieWordChar).takeWhile isWordChar = [] := by
      cases hdrop : t.dropWhile isPieWordChar with
      | nil => rfl
      | cons c rest =>
        have hend := Cursor.head?_of_dropWhile (x := c :: rest) (y := [])
          (by rw [hdrop, List.append_nil]) rfl
        refine List.takeWhile_cons_of_neg ?_
        simp only [isPieWordChar, Bool.and_eq_false_iff, Bool.not_eq_false', bne_eq_false_iff_eq]
          at hend
        rcases hend with (hwhite | rfl) | rfl
        · rw [isWordChar_of_isWhiteSpace hwhite]
          exact Bool.false_ne_true
        · decide
        · decide
    rw [hstop, List.append_nil]
    exact ((List.takeWhile_prefix _).eq_of_length hall).symm
  · rfl

/-- A misspelled keyword stands apart. -/
theorem Misspelled.standsApart {t : Text} (hc : lexStep.Clean (Reader.ofText t)) {place : Position}
    {word suggestion : String} {pre post : Toks} {first tok : Tok}
    (h : Misspelled (scan t).lexed.tokens place word suggestion pre first tok post) :
    ∃ before lead ahead, StandsApart t place word.toList before lead ahead := by
  have hfirst : first.kind ≠ .eof := by
    intro hk
    have hprecedes := h.first_precedes
    rw [hk] at hprecedes
    cases hprecedes
  obtain ⟨r, s, blanks, later, hnext⟩ := hc.exists_neighbours lexStep_parts h.tokens hfirst
    (fun r r' hl hm => (lexStep_precedes hl hm h.first_precedes).1)
    (by rw [h.kind]; decide) (by rw [h.kind]; decide)
  obtain ⟨-, n, hcursor, hpassed⟩ := lexStep_precedes hnext.leads (by rw [hnext.tokens]; simp)
    h.first_precedes
  obtain ⟨⟨c, hhead, hchar⟩, himage⟩ := lexStep_word hnext.leads_next hnext.tokens_next h.kind
  obtain ⟨before, -, hat⟩ := hnext.exists_at lexStep_honest hcursor
  have hbefore : ∀ d ∈ (before ++ r.cursor.rest.take n ++ blanks).getLast?,
      isWordChar d = false := by
    rcases hpassed with hline | hword
    · refine getLast?_append_blanks ?_ hnext.blanks_blank
      rw [hline]
      intro d hd
      rw [List.getLast?_concat] at hd
      rw [← Option.some.inj hd]
      decide
    · -- right behind a word no other one starts, so there are blanks
      rcases List.eq_nil_or_concat blanks with hnone | ⟨init, last, hlast⟩
      · exfalso
        have hrest := hnext.rest_eq
        rw [hnone, List.nil_append, hcursor, hword] at hrest
        have hstop := Cursor.head?_of_dropWhile (x := s.cursor.rest) (y := [])
          (by rw [hrest, List.append_nil]) hhead
        rw [hchar] at hstop
        cases hstop
      · intro d hd
        rw [hlast, List.concat_eq_append, ← List.append_assoc, List.getLast?_concat] at hd
        rw [← Option.some.inj hd]
        exact isWordChar_of_isBlankChar (hnext.blanks_blank last (by rw [hlast]; simp))
  have hpos : 0 < (s.cursor.rest.takeWhile isPieWordChar).length := by
    obtain ⟨rest, hrest⟩ := List.head?_eq_some_iff.mp hhead
    simp [hrest, hchar]
  have hinit : s.cursor.rest.take (s.cursor.rest.takeWhile isPieWordChar).length =
      s.cursor.rest.takeWhile isPieWordChar :=
    (List.prefix_iff_eq_take.mp (List.takeWhile_prefix _)).symm
  have hapart := hat.exists_standsApart hpos
    (s.cursor.takeWhile_length_le (by decide) (by decide)) hbefore
    (by rw [hinit]; exact takeWhile_isWordChar _)
  refine ⟨before ++ r.cursor.rest.take n ++ blanks, ?_⟩
  have hchars : word.toList = s.cursor.rest.takeWhile isPieWordChar := by
    rw [h.word_eq, himage]
    exact String.toList_ofList
  rw [hinit, ← hchars] at hapart
  rw [h.place_eq, himage]
  exact hapart

end DiagramLint.Pie
