-- The safe repairs of a sequence diagram: a wrong arrow, a misspelled
-- keyword and a missing colon are mended between two readers of the lexer,
-- so that what a pass leaves is read without an error.
import Mathlib.Data.List.Chain
import DiagramLint.Proofs.Grammar.Stages
import DiagramLint.Proofs.Lexing.Mending
import DiagramLint.Proofs.Repair.Convergence
import DiagramLint.Proofs.Repair.Placing
import DiagramLint.Proofs.Sequence.Parser
import DiagramLint.Proofs.Sequence.Spelling
import DiagramLint.Sequence.Language

namespace DiagramLint.Sequence

/-! ## Tokens and the readers before them -/

/-- Only text comes along with another token. -/
theorem mem_withTrailingText {tok first : Tok} {cursor : Cursor}
    (h : tok ∈ (withTrailingText first cursor).tokens) : tok = first ∨ tok.kind = .text := by
  rw [withTrailingText_tokens] at h
  rcases List.mem_cons.mp h with hfirst | h
  · exact .inl hfirst
  · obtain ⟨x, -, ⟨-, hnone⟩ | ⟨-, text, htext, hkind⟩⟩ := trailingText_cases cursor
    · rw [hnone] at h
      cases h
    · rw [htext] at h
      exact .inr (List.mem_singleton.mp h ▸ hkind)

/-- Behind a word only text is read in one step with it. -/
theorem mem_word {s : Reader Kind} {tok : Tok} (h : tok ∈ (word s).tokens) :
    tok.kind = wordKind s tok.image ∧ tok.image = String.ofList (s.cursor.rest.takeWhile isIdentChar)
      ∨ tok.kind = .text := by
  have htake : s.cursor.rest.take (s.cursor.rest.takeWhile isIdentChar).length =
      s.cursor.rest.takeWhile isIdentChar :=
    (List.prefix_iff_eq_take.mp (List.takeWhile_prefix _)).symm
  unfold word at h
  dsimp only [Cursor.takeWhile, Cursor.take] at h
  rw [htake] at h
  split at h
  · rcases mem_withTrailingText h with rfl | htext
    · exact .inl ⟨rfl, rfl⟩
    · exact .inr htext
  · rw [List.mem_singleton.mp h]
    exact .inl ⟨rfl, rfl⟩

/-- A word or a wrong arrow is the only token of its step, and the characters that it passes. -/
theorem lexStep_alone {s : Reader Kind} (hr : s.cursor.rest ≠ []) (he : (lexStep s).errors = [])
    {tok : Tok} (h : tok ∈ (lexStep s).tokens)
    (hk : tok.kind = .ident ∨ tok.kind = .invalidArrow) :
    ∃ n, lexStep.Alone s tok n ∧
      (tok.kind = .ident → n = (s.cursor.rest.takeWhile isIdentChar).length) := by
  obtain ⟨c, rest, hrest⟩ := List.exists_cons_of_ne_nil hr
  rcases lexStep_cases hrest he with ⟨hb, hstep⟩ | ⟨hn, hstep⟩ | ⟨hcomment, hstep⟩ |
    ⟨hcolon, hstep⟩ | ⟨hsign, hstep⟩ | ⟨hident, hstep⟩ | ⟨hdash, kind, n, harrow, hstep⟩
  all_goals rw [hstep] at h
  · cases h
  · rw [List.mem_singleton.mp h] at hk
    simp [Token.ofText] at hk
  · cases h
  · rcases mem_withTrailingText h with hfirst | htext
    · rw [hfirst] at hk
      simp [Token.ofText] at hk
    · simp [htext] at hk
  · rw [List.mem_singleton.mp h] at hk
    simp [Token.ofText] at hk
  · have hpos : 0 < (s.cursor.rest.takeWhile isIdentChar).length := by simp [hrest, hident]
    have hle := s.cursor.takeWhile_length_le (p := isIdentChar)
      (isIdentChar_of_isWhiteSpace (by decide)) (isIdentChar_of_isWhiteSpace (by decide))
    unfold word at h hstep
    dsimp only [Cursor.takeWhile, Cursor.take] at h hstep
    split at h
    · rename_i hkeyword
      rw [Bool.and_eq_true, beq_iff_eq] at hkeyword
      rcases mem_withTrailingText h with hfirst | htext
      · rw [hfirst, hkeyword.1] at hk
        simp at hk
      · simp [htext] at hk
    · rename_i hplain
      have htok := List.mem_singleton.mp h
      rw [if_neg hplain] at hstep
      exact ⟨_, ⟨hpos, hle, by rw [hstep, htok], by rw [hstep], by rw [htok]; rfl⟩, fun _ => rfl⟩
  · obtain ⟨hkind, hpos, hle⟩ := arrowAt?_length harrow
    have htok := List.mem_singleton.mp h
    refine ⟨n, ⟨hpos, hle, by rw [hstep, htok]; rfl, by rw [hstep]; rfl, ?_⟩, ?_⟩
    · rw [htok]
      rfl
    · intro hident
      rw [htok] at hident
      change kind = .ident at hident
      rw [hident] at hkind
      cases hkind

/-- Where a word or a wrong arrow of a text is read. A word is read up to its end. -/
structure Found (t : Text) (pre : Toks) (tok : Tok) (post : Toks) (s : Reader Kind)
    (before lead ahead : Text) : Prop
    extends lexStep.Reads .eof t pre tok post s before lead ahead where
  ident_image : tok.kind = .ident → tok.image.toList = s.cursor.rest.takeWhile isIdentChar

section

variable {t : Text} {pre post : Toks} {tok : Tok} {s : Reader Kind} {before lead ahead : Text}

theorem found_of_reads (h : lexStep.Reads .eof t pre tok post s before lead ahead)
    (hk : tok.kind = .ident ∨ tok.kind = .invalidArrow) :
    Found t pre tok post s before lead ahead := by
  refine ⟨h, fun hi => ?_⟩
  obtain ⟨n, ⟨-, -, -, -, htok⟩, hident⟩ := lexStep_alone h.leads.rest h.leads.errors
    (by rw [h.step_tokens]; exact List.mem_singleton_self tok) hk
  have himage : tok.image.toList = s.cursor.rest.take n := by
    rw [htok]
    exact String.toList_ofList
  rw [himage, hident hi]
  exact (List.prefix_iff_eq_take.mp (List.takeWhile_prefix _)).symm

/-- A reader that yields a word or a wrong arrow finds it. -/
theorem found_of_reader (hc : lexStep.Clean (Reader.ofText t))
    (hr : lexStep.Reaches (Reader.ofText t) s) (hne : s.cursor.rest ≠ [])
    (htok : tok ∈ (lexStep s).tokens) (hk : tok.kind = .ident ∨ tok.kind = .invalidArrow)
    (hprev : s.previous = pre.getLast?)
    (hpost : (Scan.run lexStep .eof s).lexed.tokens = tok :: post) :
    ∃ before lead ahead, Found t pre tok post s before lead ahead := by
  obtain ⟨n, halone, -⟩ := lexStep_alone hne ((hc.of_reaches hr).leads hne).errors htok hk
  obtain ⟨before, lead, ahead, hreads⟩ := halone.reads lexStep_honest hc hr hne hprev hpost
  exact ⟨before, lead, ahead, found_of_reads hreads hk⟩

theorem exists_found (hc : lexStep.Clean (Reader.ofText t))
    (ht : (tokenize t).tokens = pre ++ tok :: post)
    (hk : tok.kind = .ident ∨ tok.kind = .invalidArrow) :
    ∃ s before lead ahead, Found t pre tok post s before lead ahead := by
  have heof : tok.kind ≠ .eof := by
    rcases hk with hk | hk
    all_goals
      rw [hk]
      decide
  obtain ⟨s, before, lead, ahead, hreads⟩ := hc.exists_reads lexStep_honest ht heof
    fun s hne he htok => (lexStep_alone hne he htok hk).imp fun _ h => h.1
  exact ⟨s, before, lead, ahead, found_of_reads hreads hk⟩

namespace Found

theorem stands (h : Found t pre tok post s before lead ahead) :
    lexStep.Stands (fun _ => modeOf) t (Text.byteSize before) (modeOf s) :=
  ⟨s, before, h.reaches, h.cursor_at, rfl, rfl⟩

theorem modeOf_behind (h : Found t pre tok post s before lead ahead) :
    modeOf (s.after (lexStep s)) = tok.kind.mode := by
  refine modeOf_after_token ?_
  rw [h.step_tokens]
  rfl

theorem stands_behind (h : Found t pre tok post s before lead ahead) :
    lexStep.Stands (fun _ => modeOf) t (Text.byteSize (before ++ tok.image.toList)) tok.kind.mode :=
  ⟨_, _, h.reaches.tail h.leads, h.at_behind, rfl, h.modeOf_behind⟩

end Found

end

/-! ## Repairs -/

/-- The edit leads from one reader of a text to another, and what it puts in is spelled. -/
def Mended (t : Text) (edit : Edit) : Prop :=
  Mends Piece Mode.Le t (lexStep.Stands (fun _ => modeOf) t) (edit.resolve t, edit.newText)
    (edit.resolve t).start (edit.resolve t).stop

section

variable {t : Text} {pre post : Toks} {tok : Tok} {s : Reader Kind} {before lead ahead : Text}
  {d : Diagnostic} {p : Proposal} {edit : Edit} {more : Text}

/-- Characters of one token from its start on give way to something spelled. -/
theorem Found.mended (h : Found t pre tok post s before lead ahead) {newText : Text} {e : Mode}
    (hs : Spells (modeOf s) newText e) (hle : tok.kind.mode.Le e) :
    Mended t (.replaceSpan (placeAfter before).line (lead.length + 1) tok.image.toList.length
      newText) := by
  have hstart := h.stands
  have hstop := h.stands_behind
  unfold Mended
  rw [h.resolve_replace]
  exact Mends.of_tight hstart hstop hle hs

/-- The repair of a wrong arrow replaces the arrow. -/
theorem Found.edit_of_arrow (h : Found t pre tok post s before lead ahead)
    (hk : tok.kind = .invalidArrow) (hd : arrowFinding? tok = some d)
    (hp : replaceToken "->>".toList t (d.clampTo t) = .ok (some p)) (he : edit ∈ p.edits) :
    edit = .replaceSpan (placeAfter before).line (lead.length + 1) tok.image.toList.length
      "->>".toList := by
  unfold arrowFinding? at hd
  rw [if_pos hk, Option.some.injEq] at hd
  exact h.edit_of_token (by rw [← hd]; rfl) (by rw [← hd]; rfl) hp he

theorem mended_arrow (h : Found t pre tok post s before lead ahead)
    (hk : tok.kind = .invalidArrow) (hmode : modeOf s ≠ .afterArrow)
    (hd : arrowFinding? tok = some d)
    (hp : replaceToken "->>".toList t (d.clampTo t) = .ok (some p)) (he : edit ∈ p.edits) :
    Mended t edit := by
  rw [h.edit_of_arrow hk hd hp he]
  refine h.mended (e := .afterArrow) ?_ (by rw [hk]; exact .refl _)
  exact .single (Piece.arrow (modeOf_reads s) (a := "->>") (by decide) fun hm => absurd hm hmode)

/-- A word that opens its line is a word from its first to its last character. -/
theorem mended_keyword (h : Found t pre tok post s before lead ahead) (hk : tok.kind = .ident)
    {word : String} (hw : word ∈ keywords)
    (hlead : lead.reverse.takeWhile isWordChar = [])
    (hahead : ahead.takeWhile isWordChar = tok.image.toList)
    (hp : replaceKeyword repairKeywords t
      ((explain (.misspelledKeyword tok.place tok.image word)).clampTo t) = some p)
    (he : edit ∈ p.edits) : Mended t edit := by
  generalize hd : explain (.misspelledKeyword tok.place tok.image word) = d at hp
  have hplace : d.place = ⟨max tok.line 1, max (tok.column + 0) 1⟩ := by rw [← hd]; rfl
  have hnamed : (d.clampTo t).hint.bind hintedKeyword? = some word := by
    rw [← hd]
    exact hintedKeyword?_of_mem (by decide) hw
  obtain ⟨c, hc, rfl⟩ := replaceKeyword_hinted hp hnamed
  obtain ⟨hline, hcaret⟩ := h.caret (Nat.zero_le _) hplace
  rw [hcaret, Option.some.injEq] at hc
  have hbefore : c.countBefore isWordChar = 0 := by
    rw [← hc, Caret.countBefore, Caret.before, Nat.add_zero, List.take_left, hlead]
    rfl
  have hcount : c.countAhead isWordChar = tok.image.toList.length := by
    rw [← hc, Caret.countAhead, Caret.ahead, Nat.add_zero, List.drop_left, hahead]
  rw [List.mem_singleton.mp he, hline, hbefore, hcount, ← hc]
  simp only [Nat.add_zero, Nat.sub_zero, Nat.add_sub_cancel_left]
  have hident := List.all_eq_true.mp (isIdentChar_of_keyword hw)
  have hne : ∀ w ∈ keywords, w.toList ≠ [] := by decide
  exact h.mended (spells_ident (modeOf_reads s) (hne word hw) hident) (by rw [hk]; exact .refl _)

/-- White space behind a token, on its line, is a blank. -/
theorem Found.stands_behind_blank (hclean : lexStep.Clean (Reader.ofText t))
    (h : Found t pre tok post s before lead ahead) {c : Char}
    (hc : ahead.drop tok.image.toList.length = c :: more) (hw : isWhiteSpace c = true) :
    lexStep.Stands (fun _ => modeOf) t (Text.byteSize (before ++ (tok.image.toList ++ [c])))
      tok.kind.mode := by
  have hreach := h.reaches.tail h.leads
  obtain ⟨below, hbelow⟩ := h.ahead_isPrefix
  have hrest : (s.after (lexStep s)).cursor.rest = c :: (more ++ below) := by
    change (lexStep s).cursor.rest = _
    rw [h.step_cursor, Cursor.skip_rest, ← hbelow,
      List.drop_append_of_le_length h.image_isPrefix.length_le, hc]
    rfl
  have hleads := (hclean.of_reaches hreach).leads (by rw [hrest]; exact List.cons_ne_nil _ _)
  have hwhite : ['%', ':', '+', '-', '<', '='].contains c = false :=
    contains_eq_false_of_all (by decide) hw
  have hline : c ≠ '\n' := by
    rintro rfl
    apply h.line_at.newline_not_mem
    exact List.mem_of_mem_drop (i := tok.image.toList.length) (by rw [hc]; exact List.mem_cons_self)
  have hat := h.at_behind
  have hmode := h.modeOf_behind
  generalize s.after (lexStep s) = s' at hreach hrest hleads hat hmode
  rcases lexStep_cases hrest hleads.errors with ⟨hb, hstep⟩ | ⟨hn, -⟩ | ⟨hcomment, -⟩ |
    ⟨hcolon, -⟩ | ⟨hsign, -⟩ | ⟨hident, -⟩ | ⟨-, kind, n, harrow, -⟩
  · refine ⟨_, _, hreach.tail hleads, ?_, rfl, ?_⟩
    · have hnext := hat.next
      rw [hrest, List.take_succ_cons, List.take_zero, List.append_assoc] at hnext
      change (lexStep s').cursor.At t _
      rw [hstep]
      exact hnext
    · exact (modeOf_after_nothing (by rw [hstep]; rfl)).trans hmode
  · exact absurd hn hline
  · simp [hcomment.1] at hwhite
  · simp [hcolon] at hwhite
  · rcases hsign.1 with hsign | hsign
    all_goals simp [hsign] at hwhite
  · rw [isIdentChar_of_isWhiteSpace hw] at hident
    cases hident
  · obtain ⟨first, line, hfirst, hsigns⟩ := arrowAt?_head harrow
    have hhead := Cursor.head?_restOfLine hfirst
    rw [hrest, List.head?_cons, Option.some.injEq] at hhead
    subst hhead
    simp_all

theorem mended_colon (hclean : lexStep.Clean (Reader.ofText t))
    (h : Found t pre tok post s before lead ahead) (hk : tok.kind = .ident)
    (hp : insertText ": ".toList .caret .safe t
      ((explain (.missingColon tok.endPlace)).clampTo t) = some p)
    (he : edit ∈ p.edits) : Mended t edit := by
  have hspell : Spells tok.kind.mode ": ".toList .opened := by
    rw [hk]
    exact .cons (a := [':']) (.colon rfl) (.single (.blank (by decide) (by decide)))
  have hle : tok.kind.mode.Le .opened := by rw [hk]; exact Mode.le_opened rfl
  have hplace : (explain (.missingColon tok.endPlace)).place =
      ⟨max (placeAfter before).line 1, max (lead.length + 1 + tok.image.toList.length) 1⟩ := by
    rw [← h.line_at.column_eq, ← h.place_eq, String.length_toList]
    rfl
  obtain ⟨tail, htail⟩ := h.image_isPrefix
  obtain ⟨hnew, hcases⟩ := h.line_at.insertText htail.symm hplace hp he
  unfold Mended
  rw [hnew]
  rcases hcases with ⟨d, more, hmore, hw, hrange⟩ | hrange
  · -- the white space behind the receiver gives way to the colon
    have hstop := h.stands_behind_blank hclean (by rw [← htail, List.drop_left, hmore]) hw
    rw [hrange]
    exact Mends.of_tight h.stands_behind hstop hle hspell
  · rw [hrange]
    exact Mends.of_tight h.stands_behind h.stands_behind hle hspell

end

/-! ## Words that open a line -/

/-- A step that yields tokens leaves a line end or the header behind only as its one token. -/
theorem lexStep_leaves {s s' : Reader Kind} (h : lexStep.Leads s s') {tok : Tok}
    (htok : tok ∈ (lexStep s).tokens.getLast?) (hk : tok.kind = .newline ∨ tok.kind = .header) :
    (∃ rest, s.cursor.rest = '\n' :: rest ∧ s'.cursor = s.cursor.skip 1) ∨
      s'.cursor.rest = s.cursor.rest.dropWhile isIdentChar := by
  obtain ⟨c, rest, hrest⟩ := List.exists_cons_of_ne_nil h.rest
  rw [h.after]
  rcases lexStep_cases hrest h.errors with ⟨hb, hstep⟩ | ⟨hn, hstep⟩ | ⟨hcomment, hstep⟩ |
    ⟨hcolon, hstep⟩ | ⟨hsign, hstep⟩ | ⟨hident, hstep⟩ | ⟨hdash, kind, n, harrow, hstep⟩
  all_goals
    simp only [Reader.after, hstep] at htok ⊢
  · cases htok
  · exact .inl ⟨rest, hn ▸ hrest, rfl⟩
  · cases htok
  · rcases mem_withTrailingText (List.mem_of_getLast? htok) with rfl | htext
    · simp [Token.ofText] at hk
    · simp [htext] at hk
  · rw [← Option.some.inj htok] at hk
    simp [Token.ofText] at hk
  · right
    unfold word at htok ⊢
    dsimp only [Cursor.takeWhile, Cursor.take] at htok ⊢
    split at htok
    · rename_i hkeyword
      rw [Bool.and_eq_true, beq_iff_eq] at hkeyword
      rcases mem_withTrailingText (List.mem_of_getLast? htok) with rfl | htext
      · simp [hkeyword.1] at hk
      · simp [htext] at hk
    · rename_i hplain
      rw [if_neg hplain]
      exact s.cursor.skip_takeWhile_rest isIdentChar
  · rw [← Option.some.inj htok] at hk
    have harrow' := (arrowAt?_length harrow).1
    change kind = .newline ∨ kind = .header at hk
    rcases hk with rfl | rfl
    all_goals cases harrow'

/-- A step that yields nothing passes a blank or a comment. -/
theorem lexStep_yields_nothing {s : Reader Kind} {c : Char} {rest : Text}
    (hrest : s.cursor.rest = c :: rest) (he : (lexStep s).errors = [])
    (h : (lexStep s).tokens = []) :
    Cursor.isBlankChar c = true ∧ lexStep s = .nothing s.cursor.next ∨
      lexStep s = .nothing s.cursor.takeLine.2 := by
  rcases lexStep_cases hrest he with hblank | ⟨-, hstep⟩ | ⟨-, hstep⟩ | ⟨-, hstep⟩ | ⟨-, hstep⟩ |
    ⟨-, hstep⟩ | ⟨-, kind, n, -, hstep⟩
  · exact .inl hblank
  · rw [hstep] at h
    cases h
  · exact .inr hstep
  · rw [hstep] at h
    cases h
  · rw [hstep] at h
    cases h
  · rw [hstep] at h
    unfold word at h
    dsimp only at h
    split at h
    · cases h
    · cases h
  · rw [hstep] at h
    cases h

/-- Before a word behind a line end or the header stands a blank, a line feed or nothing. -/
theorem before_opening {t before : Text} {s : Reader Kind} {c : Char} {rest : Text}
    (hr : lexStep.Reaches (Reader.ofText t) s) (hat : s.cursor.At t before)
    (hprev : ∀ tok ∈ s.previous, tok.kind = .newline ∨ tok.kind = .header)
    (hrest : s.cursor.rest = c :: rest) (hc : isIdentChar c = true) :
    ∀ d ∈ before.getLast?, Cursor.isBlankChar d = true ∨ d = '\n' := by
  intro d hd
  rcases Relation.ReflTransGen.cases_tail hr with rfl | ⟨s₀, hr₀, hl⟩
  · rw [hat.unique (Cursor.at_ofText t)] at hd
    cases hd
  · obtain ⟨before₀, hat₀⟩ := lexStep_honest.at_reaches (Cursor.at_ofText t) hr₀
    obtain ⟨c₀, rest₀, hrest₀⟩ := List.exists_cons_of_ne_nil hl.rest
    -- the step before has passed one character, or it has yielded the token before
    have hone : s.cursor = s₀.cursor.skip 1 → d = c₀ := by
      intro hcursor
      have hskip := hat₀.skip 1
      rw [← hcursor, hrest₀, List.take_succ_cons, List.take_zero] at hskip
      rw [hat.unique hskip, List.getLast?_concat] at hd
      exact (Option.some.inj hd).symm
    cases hlast : (lexStep s₀).tokens.getLast? with
    | none =>
      have htoks := List.getLast?_eq_none_iff.mp hlast
      rcases lexStep_yields_nothing hrest₀ hl.errors htoks with ⟨hb, hstep⟩ | hstep
      · refine .inl ((hone ?_) ▸ hb)
        rw [hl.after, Reader.after, hstep]
        rfl
      · have hline : s.cursor.rest = s₀.cursor.rest.dropWhile (· != '\n') := by
          rw [hl.after, Reader.after, hstep]
          exact s₀.cursor.takeLine_rest
        rw [hrest] at hline
        have := Cursor.head?_of_dropWhile (x := c :: rest) (y := []) (by rw [← hline]; simp) rfl
        rw [bne_eq_false_iff_eq] at this
        rw [this] at hc
        exact absurd hc (by decide)
    | some tok =>
      have hkind := hprev tok (by rw [hl.after, Reader.after, hlast]; rfl)
      rcases lexStep_leaves hl hlast hkind with ⟨rest', hnl, hcursor⟩ | hword
      · rw [hrest₀] at hnl
        exact .inr ((hone hcursor).trans (List.cons.inj hnl).1)
      · rw [hrest] at hword
        have := Cursor.head?_of_dropWhile (x := c :: rest) (y := []) (by rw [← hword]; simp) rfl
        rw [hc] at this
        cases this

section

variable {t : Text} {pre post : Toks} {tok : Tok} {s : Reader Kind} {before lead ahead : Text}

/-- No character of a word stands before a word that opens a line. -/
theorem Found.lead_of_opening (h : Found t pre tok post s before lead ahead)
    (hk : tok.kind = .ident)
    (hprev : ∀ first ∈ pre.getLast?, first.kind = .newline ∨ first.kind = .header) :
    lead.reverse.takeWhile isWordChar = [] := by
  have himage := h.ident_image hk
  have hlength := h.image_length
  rw [← String.length_toList, himage] at hlength
  obtain ⟨c, run, hrun⟩ := List.exists_cons_of_ne_nil (List.ne_nil_of_length_pos hlength)
  have hc : isIdentChar c = true :=
    List.mem_takeWhile_imp (l := s.cursor.rest) (by rw [hrun]; exact List.mem_cons_self)
  obtain ⟨rest, hrest⟩ : ∃ rest, s.cursor.rest = c :: rest := by
    obtain ⟨rest, hrest⟩ := List.takeWhile_prefix (l := s.cursor.rest) isIdentChar
    exact ⟨run ++ rest, by rw [← hrest, hrun]; rfl⟩
  have hopening := before_opening h.reaches h.cursor_at (by rwa [h.previous_eq]) hrest hc
  rcases List.eq_nil_or_concat lead with rfl | ⟨init, d, rfl⟩
  · rfl
  · obtain ⟨above, habove⟩ := h.line_at.lead_suffix
    have hd : before.getLast? = some d := by
      rw [← habove, List.concat_eq_append, ← List.append_assoc, List.getLast?_concat]
    have hword : isWordChar d = false := by
      rcases hopening d hd with hb | rfl
      · exact isWordChar_of_isWhiteSpace (Cursor.isWhiteSpace_of_isBlankChar hb)
      · decide
    simp [List.concat_eq_append, hword]

/-- A word that no arrow follows is all that stands there of a word. -/
theorem Found.ahead_of_opening (hclean : lexStep.Clean (Reader.ofText t))
    (h : Found t pre tok post s before lead ahead) (hk : tok.kind = .ident)
    (harrow : (kindAhead post).isArrow = false) :
    ahead.takeWhile isWordChar = tok.image.toList := by
  have himage := h.ident_image hk
  obtain ⟨tail, rfl⟩ := h.image_isPrefix
  obtain ⟨below, hbelow⟩ := h.ahead_isPrefix
  have hword : ∀ c ∈ tok.image.toList, isWordChar c = true := by
    intro c hc
    rw [himage] at hc
    have hident : isIdentChar c = true := List.mem_takeWhile_imp hc
    simp only [isIdentChar, Bool.or_eq_true] at hident
    rcases hident with hident | hident
    · simp [isWordChar, hident]
    · simp [isWordChar, hident]
  rw [List.takeWhile_append_of_pos hword]
  suffices hstop : tail.takeWhile isWordChar = [] by rw [hstop, List.append_nil]
  cases tail with
  | nil => rfl
  | cons c tail =>
    refine List.takeWhile_cons_of_neg ?_
    intro hc
    have hbehind : s.cursor.rest.dropWhile isIdentChar = c :: (tail ++ below) := by
      have hsplit := List.takeWhile_append_dropWhile (p := isIdentChar) (l := s.cursor.rest)
      rw [← himage, ← hbelow, List.append_assoc, List.append_cancel_left_eq] at hsplit
      rw [← hbelow, List.append_assoc]
      exact hsplit
    have hident : isIdentChar c = false :=
      Cursor.head?_of_dropWhile (x := c :: (tail ++ below)) (y := [])
        (by rw [hbehind, List.append_nil]) rfl
    -- only a dash is left, and with a dash an arrow starts
    have hdash : c = '-' := by
      simp only [isIdentChar, Bool.or_eq_false_iff] at hident
      simpa [isWordChar, hident] using hc
    subst hdash
    have hrest : (s.after (lexStep s)).cursor.rest = '-' :: (tail ++ below) := by
      change (lexStep s).cursor.rest = _
      rw [h.step_cursor, himage, Cursor.skip_takeWhile_rest]
      exact hbehind
    have hmode := h.modeOf_behind
    have htoks := h.tokens_behind
    have hleads := (hclean.of_reaches (h.reaches.tail h.leads)).leads
      (by rw [hrest]; exact List.cons_ne_nil _ _)
    generalize s.after (lexStep s) = s' at hrest hmode htoks hleads
    rcases lexStep_cases hrest hleads.errors with ⟨hb, -⟩ | ⟨hn, -⟩ | ⟨hcomment, -⟩ |
      ⟨hcolon, -⟩ | ⟨hsign, -⟩ | ⟨hident, -⟩ | ⟨-, kind, n, hfound, hstep⟩
    · cases hb
    · cases hn
    · cases hcomment.1
    · cases hcolon
    · rw [hmode, hk] at hsign
      cases hsign.2
    · exact absurd hident (by decide)
    · rw [hleads.tokens_run Kind.eof, hstep] at htoks
      rw [← htoks] at harrow
      have hkind := (arrowAt?_length hfound).1
      change kind.isArrow = false at harrow
      rw [harrow] at hkind
      cases hkind

end

/-! ## The safe repairs -/

theorem report_diagnostics {t : Text} {options : LintOptions} (hc : (tokenize t).errors = [])
    {d : Diagnostic} (hd : d ∈ (grammar.report t options (tokenize t)).diagnostics) :
    (∃ tok ∈ (tokenize t).tokens, ∃ found, arrowFinding? tok = some found ∧ d = found.clampTo t) ∨
      ∃ e ∈ (parse (tokenize t).tokens).errors, d = (explain e).clampTo t := by
  obtain ⟨found, hfound, rfl⟩ := Grammar.exists_finding_of_mem_report hd
  cases hfound with
  | @lexical e he =>
    have he : e ∈ (tokenize t).errors := he
    rw [hc] at he
    cases he
  | postLex hpost =>
    obtain ⟨tok, htok, hf⟩ := List.mem_filterMap.mp hpost
    exact .inl ⟨tok, htok, found, hf, rfl⟩
  | @parsing e hclean he => exact .inr ⟨e, he, rfl⟩
  | analysis hclean htree hok hmem =>
    cases hok
    cases hmem
  | failure hclean htree hfailed => cases hfailed
  | postParse tree prior hend => cases hend

/-- No wrong arrow comes right behind an arrow. -/
def ArrowsApart (toks : Toks) : Prop :=
  toks.IsChain fun a b => a.kind.isArrow = true → b.kind ≠ .invalidArrow

instance : DecidablePred ArrowsApart := fun toks => inferInstanceAs (Decidable (toks.IsChain _))

theorem isArrow_of_mode {kind : Kind} (h : kind.mode = .afterArrow) : kind.isArrow = true := by
  cases kind with
  | arrow => rfl
  | invalidArrow => rfl
  | _ => cases h

/-- The repair of what is found of a token. -/
theorem mended_of_finding {t : Text} (hclean : lexStep.Clean (Reader.ofText t))
    (ha : ArrowsApart (tokenize t).tokens) {tok : Tok} (htok : tok ∈ (tokenize t).tokens)
    {found : Diagnostic} (hfound : arrowFinding? tok = some found) {code : String} {c : Candidate}
    (hcode : found.code = some code)
    (hcandidate : candidate? Registry.builtin t .safe code (found.clampTo t) = .ok (some c))
    {edit : Edit} (hedit : edit ∈ c.proposal.edits) : Mended t edit := by
  have hk : tok.kind = .invalidArrow := by
    unfold arrowFinding? at hfound
    split at hfound
    · assumption
    · cases hfound
  obtain rfl : code = Code.seqArrowInvalid := by
    unfold arrowFinding? at hfound
    rw [if_pos hk, Option.some.injEq] at hfound
    rw [← hfound] at hcode
    exact (Option.some.inj hcode).symm
  obtain ⟨-, hp⟩ := candidate?_safe _ hcandidate rfl
  obtain ⟨pre, post, hsplit⟩ := List.append_of_mem htok
  obtain ⟨s, before, lead, ahead, hf⟩ := exists_found hclean hsplit (.inr hk)
  refine mended_arrow hf hk ?_ hfound hp hedit
  rw [ArrowsApart, hsplit, List.isChain_append] at ha
  unfold modeOf
  rw [hf.previous_eq]
  cases hlast : pre.getLast? with
  | none => exact fun h => by cases h
  | some last =>
    intro hmode
    have harrow : last.kind.isArrow = true := isArrow_of_mode hmode
    exact ha.2.2 last hlast tok rfl harrow hk

/-- The repairs of what the parser reports. -/
theorem mended_of_error {t : Text} (hclean : lexStep.Clean (Reader.ofText t)) {e : ParseError}
    (he : e ∈ (parse (tokenize t).tokens).errors) {code : String} {c : Candidate}
    (hcode : (explain e).code = some code)
    (hcandidate : candidate? Registry.builtin t .safe code ((explain e).clampTo t) =
      .ok (some c))
    {edit : Edit} (hedit : edit ∈ c.proposal.edits) : Mended t edit := by
  have hstems := parse_stems _ e he
  cases e with
  | missingColon place =>
    obtain ⟨tok, htok, hk, rfl⟩ := hstems
    obtain ⟨-, hp⟩ := candidate?_safe (.insertText ": ".toList .caret .safe)
      hcandidate (by rw [← Option.some.inj hcode]; rfl)
    obtain ⟨pre, post, hsplit⟩ := List.append_of_mem htok
    obtain ⟨s, before, lead, ahead, hf⟩ := exists_found hclean hsplit (.inl hk)
    exact mended_colon hclean hf hk (Except.ok.inj hp) hedit
  | misspelledKeyword place image word =>
    obtain ⟨pre, first, tok, post, hsplit, hfirst, hk, harrow, rfl, rfl, hw⟩ := hstems
    obtain ⟨-, hp⟩ := candidate?_safe (.replaceKeyword repairKeywords) hcandidate
      (by rw [← Option.some.inj hcode]; rfl)
    rw [← List.singleton_append, ← List.append_assoc] at hsplit
    obtain ⟨s, before, lead, ahead, hf⟩ := exists_found hclean hsplit (.inl hk)
    refine mended_keyword hf hk hw (hf.lead_of_opening hk ?_)
      (hf.ahead_of_opening hclean hk harrow) (Except.ok.inj hp) hedit
    intro last hlast
    rw [List.getLast?_concat] at hlast
    rw [← Option.some.inj hlast]
    exact hfirst
  | blockMissingEnd place keyword openedAt =>
    obtain ⟨hlevel, -⟩ := candidate?_safe
      (.closeBlock (.keywords endBlockOpeners) "end".toList) hcandidate
      (by rw [← Option.some.inj hcode]; rfl)
    cases hlevel
  | endWithoutBlock place =>
    obtain ⟨strategy, hs, -⟩ := candidate?_eq_some hcandidate
    rw [← Option.some.inj hcode] at hs
    cases hs
  | branchOutsideBlock place keyword parent =>
    obtain ⟨strategy, hs, -⟩ := candidate?_eq_some hcandidate
    rw [← Option.some.inj hcode] at hs
    cases hs
  | unexpected place length found expected =>
    obtain ⟨strategy, hs, -⟩ := candidate?_eq_some hcandidate
    rw [← Option.some.inj hcode] at hs
    cases hs

theorem mended_of_mem {t : Text} {options : LintOptions} (hc : (tokenize t).errors = [])
    (ha : ArrowsApart (tokenize t).tokens) {edits : List Edit} {edit : Edit}
    (hedits : selectEdits Registry.builtin t
      (grammar.report t options (tokenize t)).diagnostics .safe = .ok edits)
    (he : edit ∈ edits) : Mended t edit := by
  have hclean : lexStep.Clean (Reader.ofText t) :=
    (Scan.errors_eq_nil_iff (scan_eq_finished t)).mp hc
  obtain ⟨d, hd, code, c, hcode, hcandidate, hedit⟩ := exists_candidate_of_mem_selectEdits hedits he
  rcases report_diagnostics hc hd with ⟨tok, htok, found, hfound, rfl⟩ | ⟨e, he, rfl⟩
  · exact mended_of_finding hclean ha htok hfound hcode hcandidate hedit
  · exact mended_of_error hclean he hcode hcandidate hedit

/-- A pass of safe repairs leaves a sequence diagram that is read without an error, if the diagram
was and no wrong arrow comes right behind an arrow. -/
theorem errors_safe_pass {t : Text} {options : LintOptions} (hc : (tokenize t).errors = [])
    (ha : ArrowsApart (tokenize t).tokens) {edits : List Edit}
    (hedits : selectEdits Registry.builtin t
      (grammar.report t options (tokenize t)).diagnostics .safe = .ok edits) :
    (tokenize (t.splice edits)).errors = [] := by
  have hclean : lexStep.Clean (Reader.ofText t) :=
    (Scan.errors_eq_nil_iff (scan_eq_finished t)).mp hc
  obtain ⟨-, e, -, -, hspell⟩ := (hclean.stations lexStep_honest lexStep_spells graded).spells_edits graded
    (fun n => ⟨n, n⟩) (List.pairwise_map.mpr (selectEdits_apart hedits))
    fun edit hedit => ⟨_, _, .tight (mended_of_mem hc ha hedits hedit)⟩
  exact (Scan.errors_eq_nil_iff (scan_eq_finished _)).mpr (clean_of_spells hspell)

end DiagramLint.Sequence
