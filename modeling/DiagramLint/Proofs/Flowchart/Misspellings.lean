-- Misspelled keywords in flowcharts. The word that the parser reports stands
-- apart in the text: a separator comes before it, and a dash behind it would
-- be part of it, or begin a link.
import DiagramLint.Flowchart.Language
import DiagramLint.Proofs.Flowchart.Errors
import DiagramLint.Proofs.Flowchart.Steps
import DiagramLint.Proofs.Repair.Keywords

namespace DiagramLint.Flowchart

/-- The character that a step for a separator passes belongs to no word. -/
theorem lexStep_separator {s : Reader Kind} (hr : s.cursor.rest ≠ []) (he : (lexStep s).errors = [])
    {tok : Tok} (h : tok ∈ (lexStep s).tokens) (hk : tok.kind.isSeparator = true) :
    (lexStep s).tokens = [tok] ∧ ∃ c, s.cursor.rest = c :: (lexStep s).cursor.rest ∧
      (lexStep s).cursor = s.cursor.skip 1 ∧ isWordChar c = false := by
  obtain ⟨later, htoks⟩ := lexStep_head hr he h (by
    revert hk
    cases tok.kind <;> decide)
  obtain ⟨c, rest, hrest⟩ := List.exists_cons_of_ne_nil hr
  have htook := lexStep_took hrest he
  have hskip : s.cursor.rest = c :: (s.cursor.skip 1).rest := by
    rw [Cursor.skip_rest, hrest]
    rfl
  generalize lexStep s = y at htook htoks ⊢
  cases htook with
  | blank | comment => cases htoks
  | newline hc | semi hc =>
    cases htoks
    refine ⟨rfl, c, hskip, rfl, ?_⟩
    rw [hc]
    decide
  | amp | edgeLabel | classRef | shapeOpen | shapeClose =>
    cases htoks
    cases hk
  | link kind n hlink =>
    cases htoks
    rcases linkAt?_kind hlink with rfl | rfl
    all_goals cases hk
  | word hc =>
    obtain ⟨more, hword, -⟩ := word_tokens s
    rw [hword] at htoks
    cases htoks
    dsimp only [Token.ofText] at hk
    rcases wordKind_eq (.of s) _ with hw | hw | hw | hw
    all_goals
      rw [hw] at hk
      cases hk

/-- With a dash that no word goes on with, a link starts. -/
theorem lexStep_dash {s : Reader Kind} {rest : Text} (hrest : s.cursor.rest = '-' :: rest)
    (he : (lexStep s).errors = []) :
    ∃ kind n, (kind = .link ∨ kind = .invalidLink) ∧ lexStep s = lexeme kind n s.cursor := by
  obtain ⟨line, hline⟩ := Cursor.exists_restOfLine hrest (by decide) (by decide)
  have hbracket : ∀ {brackets : List String} {b : String},
      (∀ b ∈ brackets, b.toList.head?.any (· != '-') = true) →
      bracketAt? brackets s.cursor.restOfLine ≠ some b := by
    intro brackets b hall hb
    obtain ⟨hm, more, hmore⟩ := bracketAt?_eq_some hb
    have hhead := hall b hm
    rw [hline] at hmore
    cases hb : b.toList with
    | nil =>
      rw [hb] at hhead
      cases hhead
    | cons c _ =>
      rw [hb] at hmore hhead
      simp [(List.cons.inj hmore).1] at hhead
  have htook := lexStep_took hrest he
  generalize lexStep s = y at htook ⊢
  cases htook with
  | blank hb => cases hb
  | newline hc | semi hc | amp hc | edgeLabel hc => cases hc
  | comment hc => cases hc.1
  | classRef hc =>
    rw [hline] at hc
    cases hc
  | link kind n hlink => exact ⟨kind, n, linkAt?_kind hlink, rfl⟩
  | shapeOpen opener ho => exact absurd ho (hbracket (by decide))
  | shapeClose closer hcl => exact absurd hcl (hbracket (by decide))
  | word hc => exact absurd hc (by decide)

/-- A word before another one is all that stands there of a word. -/
theorem takeWhile_isWordChar {s : Reader Kind} {post : Toks}
    (hc : lexStep.Clean (s.after (lexStep s)))
    (hcursor : (lexStep s).cursor = s.cursor.skip (wordAt s.cursor.rest).length)
    (hpost : (Scan.run lexStep .eof (s.after (lexStep s))).lexed.tokens = post)
    (hahead : kindAhead post = .ident ∨ kindAhead post = .direction) :
    s.cursor.rest.takeWhile isWordChar = wordAt s.cursor.rest := by
  obtain ⟨rest, hrest, hstop⟩ := wordAt_stops s.cursor.rest
  conv_lhs => rw [hrest]
  rw [List.takeWhile_append_of_pos fun c => isWordChar_of_mem_wordAt]
  suffices hnone : rest.takeWhile isWordChar = [] by rw [hnone, List.append_nil]
  cases rest with
  | nil => rfl
  | cons c more =>
    refine List.takeWhile_cons_of_neg ?_
    intro hword
    have hdash := hstop c rfl hword
    subst hdash
    have hbehind : (s.after (lexStep s)).cursor.rest = '-' :: more := by
      change (lexStep s).cursor.rest = _
      rw [hcursor, Cursor.skip_rest]
      conv_lhs =>
        arg 2
        rw [hrest]
      exact List.drop_left
    have hleads := hc.leads (by rw [hbehind]; exact List.cons_ne_nil _ _)
    obtain ⟨kind, n, hkind, hstep⟩ := lexStep_dash hbehind hleads.errors
    rw [hleads.tokens_run Kind.eof, hstep] at hpost
    rw [← hpost] at hahead
    change kind = .ident ∨ kind = .direction at hahead
    rcases hkind with rfl | rfl
    all_goals simp at hahead

/-- A misspelled keyword stands apart, and all its characters belong to words. -/
theorem Misspelled.standsApart {t : Text} (hc : lexStep.Clean (Reader.ofText t)) {place : Position}
    {word suggestion : String} {pre post : Toks} {first tok : Tok}
    (h : Misspelled (tokenize t).tokens place word suggestion pre first tok post) :
    (∀ c ∈ word.toList, isWordChar c = true) ∧
      ∃ before lead ahead, StandsApart t place word.toList before lead ahead := by
  have hfirst : first.kind ≠ .eof := by
    intro hk
    have hsep := h.first_separates
    rw [hk] at hsep
    cases hsep
  obtain ⟨r, s, blanks, later, hnext⟩ := hc.exists_neighbours lexStep_parts h.tokens hfirst
    (fun r r' hl hm => (lexStep_separator hl.rest hl.errors hm h.first_separates).1)
    (by rw [h.kind]; decide) (by rw [h.kind]; decide)
  have htok := hnext.tokens_next
  obtain ⟨-, c, hcons, hcursor, hchar⟩ := lexStep_separator hnext.leads.rest hnext.leads.errors
    (by rw [hnext.tokens]; simp) h.first_separates
  obtain ⟨hone, hpos, hword, hplace, himage⟩ :=
    lexStep_node hnext.leads_next.rest hnext.leads_next.errors (show tok ∈ _ by rw [htok]; simp)
      (by simp [startsNode, h.kind])
  have hinit : s.cursor.rest.take (wordAt s.cursor.rest).length = wordAt s.cursor.rest :=
    (List.prefix_iff_eq_take.mp (wordAt_isPrefix _)).symm
  have hchars : word.toList = wordAt s.cursor.rest := by rw [h.word_eq, himage]
  have hpost := hnext.leads_next.tokens_run Kind.eof
  rw [hnext.run_next, hone] at hpost
  have hreach := ((hnext.reaches.tail hnext.leads).trans hnext.reaches_next).tail hnext.leads_next
  have hbehind := takeWhile_isWordChar (hc.of_reaches hreach) hword
    (List.cons.inj hpost).2.symm h.ahead
  -- before the word stands the separator, or a blank
  obtain ⟨before, -, hat⟩ := hnext.exists_at lexStep_honest hcursor
  rw [hcons, List.take_succ_cons, List.take_zero] at hat
  have hbefore : ∀ d ∈ (before ++ [c] ++ blanks).getLast?, isWordChar d = false := by
    refine getLast?_append_blanks ?_ hnext.blanks_blank
    simpa using hchar
  refine ⟨fun d hd => isWordChar_of_mem_wordAt (hchars ▸ hd), before ++ [c] ++ blanks, ?_⟩
  have hapart := hat.exists_standsApart hpos
    (s.cursor.inline_length_le (wordAt_isPrefix _) (wordAt_inline _)) hbefore
    (by
      rw [hbehind, hinit]
      exact (List.takeWhile_eq_self_iff.mpr fun d => isWordChar_of_mem_wordAt).symm)
  rw [hinit, ← hchars] at hapart
  rw [h.place_eq, hplace]
  exact hapart

end DiagramLint.Flowchart
