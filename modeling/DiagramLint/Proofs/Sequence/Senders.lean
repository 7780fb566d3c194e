-- Where the wrong arrows of a sequence diagram stand. If the lines of a
-- diagram are those of its grammar, a wrong arrow comes behind the sender of a
-- message, and the sender opens its line.
import DiagramLint.Proofs.Lexing.Gaps
import DiagramLint.Proofs.Sequence.Arrows
import DiagramLint.Proofs.Sequence.Mending

namespace DiagramLint.Sequence

open Text

/-! ## Steps -/

theorem lexStep_lineFeed {s : Reader Kind} {rest : Text} (hrest : s.cursor.rest = '\n' :: rest) :
    lexStep s = lexeme .newline 1 s.cursor := by
  unfold lexStep
  rw [hrest]
  rfl

theorem lexStep_parts : LexStep.Parts Kind.newline lexStep where
  silent := by
    intro s s' hl hnone
    obtain ⟨c, rest, hrest⟩ := List.exists_cons_of_ne_nil hl.rest
    rw [hl.after]
    change (∃ c, s.cursor.rest = c :: (lexStep s).cursor.rest ∧ _) ∨ (lexStep s).cursor.rest = _
    rcases lexStep_yields_nothing hrest hl.errors hnone with ⟨hb, hstep⟩ | hstep
    · refine .inl ⟨c, ?_, hb⟩
      rw [hstep]
      change s.cursor.rest = c :: s.cursor.next.rest
      rw [Cursor.next_rest, hrest]
      rfl
    · right
      rw [hstep]
      exact s.cursor.takeLine_rest
  lineFeed := by
    intro s rest hrest
    exact ⟨_, by rw [lexStep_lineFeed hrest]; rfl, rfl⟩

/-- A line end is read at a line feed. -/
theorem lexStep_newline {s : Reader Kind} (hne : s.cursor.rest ≠ []) (he : (lexStep s).errors = [])
    {tok : Tok} (h : tok ∈ (lexStep s).tokens) (hk : tok.kind = .newline) :
    ∃ rest, s.cursor.rest = '\n' :: rest ∧ (lexStep s).tokens = [tok] := by
  obtain ⟨c, rest, hrest⟩ := List.exists_cons_of_ne_nil hne
  have htrailing : ∀ {first : Tok} {cursor : Cursor}, tok ∈ (withTrailingText first cursor).tokens →
      first.kind ≠ .newline → False := by
    intro first cursor hm hfirst
    rcases mem_withTrailingText hm with rfl | htext
    · exact hfirst hk
    · rw [hk] at htext
      cases htext
  rcases lexStep_cases hrest he with ⟨-, hstep⟩ | ⟨rfl, hstep⟩ | ⟨-, hstep⟩ | ⟨-, hstep⟩ |
    ⟨-, hstep⟩ | ⟨hident, hstep⟩ | ⟨-, kind, n, harrow, hstep⟩
  all_goals rw [hstep] at h
  · cases h
  · refine ⟨rest, hrest, ?_⟩
    rw [hstep, List.mem_singleton.mp h]
    rfl
  · cases h
  · exact (htrailing h (by simp [Token.ofText])).elim
  · rw [List.mem_singleton.mp h] at hk
    cases hk
  · rcases mem_word h with ⟨hkind, -⟩ | htext
    · have hmode := mode_wordKind s tok.image
      rw [← hkind, hk] at hmode
      cases hmode
    · rw [hk] at htext
      cases htext
  · rw [List.mem_singleton.mp h] at hk
    change kind = .newline at hk
    rw [hk] at harrow
    cases (arrowAt?_length harrow).1

/-- A word read as a plain one at the start of a line is no keyword. -/
theorem not_keyword_of_plain {s : Reader Kind} {w : String} (h : wordKind s w = .ident)
    (hstart : modeOf s = .start) : w ∉ keywords := by
  intro hw
  unfold wordKind at h
  dsimp only at h
  rw [follows_newline_iff.mpr hstart, List.contains_iff_mem.mpr hw] at h
  split at h
  · cases h
  · cases h

theorem arrowAt?_invalid {line : Text} {n : Nat} (h : arrowAt? line = some (.invalidArrow, n)) :
    ∃ a ∈ invalidArrows, line.startsWith a.toList = true ∧ n = a.length := by
  unfold arrowAt? at h
  rw [Option.or_eq_some_iff] at h
  rcases h with h | ⟨-, h⟩
  · obtain ⟨a, -, ha⟩ := Option.map_eq_some_iff.mp h
    cases ha
  · obtain ⟨a, ha, hpair⟩ := Option.map_eq_some_iff.mp h
    have hstart := List.find?_some ha
    exact ⟨a, List.mem_of_find?_eq_some ha, hstart, (congrArg Prod.snd hpair).symm⟩

/-- A wrong arrow is one of those that the lexer knows. -/
theorem lexStep_wrongArrow {s : Reader Kind} (hne : s.cursor.rest ≠ [])
    (he : (lexStep s).errors = []) {tok : Tok} (h : tok ∈ (lexStep s).tokens)
    (hk : tok.kind = .invalidArrow) : tok.image ∈ invalidArrows := by
  obtain ⟨c, rest, hrest⟩ := List.exists_cons_of_ne_nil hne
  have htrailing : ∀ {first : Tok} {cursor : Cursor}, tok ∈ (withTrailingText first cursor).tokens →
      first.kind ≠ .invalidArrow → False := by
    intro first cursor hm hfirst
    rcases mem_withTrailingText hm with rfl | htext
    · exact hfirst hk
    · rw [hk] at htext
      cases htext
  rcases lexStep_cases hrest he with ⟨-, hstep⟩ | ⟨-, hstep⟩ | ⟨-, hstep⟩ | ⟨-, hstep⟩ |
    ⟨-, hstep⟩ | ⟨-, hstep⟩ | ⟨-, kind, n, harrow, hstep⟩
  all_goals rw [hstep] at h
  · cases h
  · rw [List.mem_singleton.mp h] at hk
    cases hk
  · cases h
  · exact (htrailing h (by simp [Token.ofText])).elim
  · rw [List.mem_singleton.mp h] at hk
    cases hk
  · rcases mem_word h with ⟨hkind, -⟩ | htext
    · have hmode := mode_wordKind s tok.image
      rw [← hkind, hk] at hmode
      cases hmode
    · rw [hk] at htext
      cases htext
  · have htok := List.mem_singleton.mp h
    rw [htok] at hk
    change kind = .invalidArrow at hk
    subst hk
    obtain ⟨a, ha, hstart, rfl⟩ := arrowAt?_invalid harrow
    have hprefix := (List.isPrefixOf_iff_prefix.mp hstart).trans s.cursor.restOfLine_isPrefix
    rw [htok]
    change String.ofList (s.cursor.rest.take a.length) ∈ invalidArrows
    rwa [← String.length_toList, ← List.prefix_iff_eq_take.mp hprefix, String.ofList_toList]

/-- No token starts with the sign that closes an arrow. -/
theorem head?_ne_of_clean {s : Reader Kind} (hc : lexStep.Clean s) :
    s.cursor.rest.head? ≠ some '>' := by
  intro hhead
  obtain ⟨rest, hrest⟩ := List.head?_eq_some_iff.mp hhead
  have hleads := hc.leads (by rw [hrest]; exact List.cons_ne_nil _ _)
  rcases lexStep_cases hrest hleads.errors with ⟨hb, -⟩ | ⟨hn, -⟩ | ⟨hcomment, -⟩ | ⟨hcolon, -⟩ |
    ⟨hsign, -⟩ | ⟨hident, -⟩ | ⟨-, kind, n, harrow, -⟩
  · cases hb
  · cases hn
  · cases hcomment.1
  · cases hcolon
  · rcases hsign.1 with hsign | hsign
    all_goals cases hsign
  · exact absurd hident (by decide)
  · obtain ⟨first, line, hfirst, hsigns⟩ := arrowAt?_head harrow
    have hsame := Cursor.head?_restOfLine hfirst
    rw [hrest, List.head?_cons, Option.some.injEq] at hsame
    subst hsame
    cases hsigns

/-! ## Tokens -/

/-- A wrong arrow is the second token of its line, behind a word. -/
theorem isLine_wrongArrow {x : Toks} {event : Event} (h : IsLine x event) {tok : Tok}
    (htok : tok ∈ x) (hk : tok.kind = .invalidArrow) :
    ∃ sender y, x = sender :: tok :: y ∧ sender.kind = .ident := by
  have hword : ∀ {word : Tok} {k : Kind} {y : Toks} {text : Option String}, word.kind = .keyword →
      k ≠ .invalidArrow → Optionally (· == k) y text → tok ∉ word :: y := by
    intro word k y text hkeyword hne hy hm
    rcases List.mem_cons.mp hm with rfl | hm
    · rw [hk] at hkeyword
      cases hkeyword
    · cases hy with
      | absent => cases hm
      | present t ht =>
        rw [← List.mem_singleton.mp hm, hk] at ht
        exact hne (beq_iff_eq.mp ht).symm
  cases h with
  | opened hkeyword hi hx => exact (hword hkeyword (by decide) hx htok).elim
  | closed hkeyword hi => exact (hword hkeyword (by decide) (k := .text) .absent htok).elim
  | branched hkeyword hi hx => exact (hword hkeyword (by decide) hx htok).elim
  | placed hs =>
    cases hs with
    | participant hkeyword hi ht =>
      exact (hword hkeyword (by decide) (.present _ (beq_iff_eq.mpr ht)) htok).elim
    | activation hkeyword hi ht =>
      exact (hword hkeyword (by decide) (.present _ (beq_iff_eq.mpr ht)) htok).elim
    | note hkeyword hi ht =>
      exact (hword hkeyword (by decide) (.present _ (beq_iff_eq.mpr ht)) htok).elim
    | directive hkeyword hi hx => exact (hword hkeyword (by decide) hx htok).elim
    | message hm =>
      cases hm with
      | @message sender arrow receiver y z sign text hs ha hy hr hz =>
        refine ⟨sender, y ++ receiver :: z, ?_, hs⟩
        suffices tok = arrow by rw [this]
        -- of the other tokens none is an arrow
        have hkinds : ∀ other ∈ sender :: (y ++ receiver :: z), other.kind ≠ .invalidArrow := by
          have hoptional : ∀ {k : Kind} {x : Toks} {text : Option String}, k ≠ .invalidArrow →
              Optionally (· == k) x text → ∀ other ∈ x, other.kind ≠ .invalidArrow := by
            intro k x text hne hx
            cases hx with
            | absent => simp
            | present t ht => simpa [beq_iff_eq.mp ht] using hne
          have hz' : ∀ other ∈ z, other.kind ≠ .invalidArrow := by
            cases hz with
            | absent => simp
            | present hc ht =>
              exact List.forall_mem_cons.mpr ⟨by simp [hc], hoptional (by decide) ht⟩
          refine List.forall_mem_cons.mpr ⟨by simp [hs], List.forall_mem_append.mpr
            ⟨hoptional (by decide) hy, List.forall_mem_cons.mpr ⟨by simp [hr], hz'⟩⟩⟩
        rcases List.mem_cons.mp htok with rfl | htok
        · exact absurd hk (hkinds _ List.mem_cons_self)
        · rcases List.mem_cons.mp htok with heq | htok
          · exact heq
          · exact absurd hk (hkinds tok (List.mem_cons_of_mem _ htok))

/-- In a diagram's lines a wrong arrow comes behind a word, and the word opens its line. -/
theorem areLines_wrongArrow {ts : Toks} {es : List Event} (h : AreLines ts es)
    (hterm : Terminated .eof ts) {tok : Tok} (htok : tok ∈ ts) (hk : tok.kind = .invalidArrow) :
    ∃ pre sender post, ts = pre ++ sender :: tok :: post ∧ sender.kind = .ident ∧
      ∀ last ∈ pre.getLast?, last.kind = .newline := by
  have hinline : tok.kind.endsLine = false := by rw [hk]; rfl
  -- the line end before the rest of the lines is no end of the text
  have hbehind : ∀ {x rest : Toks} {t : Tok}, t.kind.endsLine = true →
      Terminated .eof (x ++ t :: rest) → tok ∈ rest → t.kind = .newline := by
    intro x rest t ht hterm hm
    simp only [Kind.endsLine, Bool.or_eq_true, beq_iff_eq] at ht
    rcases ht with ht | ht
    · exact ht
    · rw [hterm.of_append.eq_nil ht] at hm
      cases hm
  have hlater : ∀ {x pre : Toks} {t : Tok}, t.kind = .newline →
      (∀ last ∈ pre.getLast?, last.kind = .newline) →
        ∀ last ∈ (x ++ t :: pre).getLast?, last.kind = .newline := by
    intro x pre t ht hpre last hlast
    rw [List.getLast?_append, List.getLast?_cons] at hlast
    cases hend : pre.getLast? with
    | none =>
      rw [hend] at hlast
      exact Option.some.inj hlast ▸ ht
    | some other =>
      rw [hend] at hlast
      exact Option.some.inj hlast ▸ hpre other hend
  induction h with
  | nil => cases htok
  | @gap t rest es ht _ ih =>
    rcases List.mem_cons.mp htok with rfl | htok
    · rw [hinline] at ht
      cases ht
    · have hnl := hbehind (x := []) ht hterm htok
      obtain ⟨pre, sender, post, rfl, hs, hpre⟩ := ih (hterm.tail (by simp [hnl])) htok
      exact ⟨t :: pre, sender, post, rfl, hs, hlater (x := []) hnl hpre⟩
  | @line x rest t e es hline ht _ ih =>
    rcases List.mem_append.mp htok with htok | htok
    · obtain ⟨sender, y, rfl, hs⟩ := isLine_wrongArrow hline htok hk
      exact ⟨[], sender, y ++ t :: rest, rfl, hs, fun _ hlast => by cases hlast⟩
    · rcases List.mem_cons.mp htok with rfl | htok
      · rw [hinline] at ht
        cases ht
      · have hnl := hbehind ht hterm htok
        obtain ⟨pre, sender, post, rfl, hs, hpre⟩ :=
          ih (hterm.of_append.tail (by simp [hnl])) htok
        exact ⟨x ++ t :: pre, sender, post, by simp, hs, hlater hnl hpre⟩

/-! ## Wrong arrows where they stand -/

/-- A wrong arrow of a text behind a heading: the lines above, its sender, and what comes behind. -/
structure WrongArrowAt (g : Heading) (t above lead word gap : Text) (a : String) (behind : Text) :
    Prop where
  text_eq : t = g.text ++ (above ++ (lead ++ (word ++ (gap ++ (a.toList ++ behind)))))
  above_ends : ∀ c ∈ above.getLast?, c = '\n'
  sender : Sender (tokenAbove above) lead word gap
  wrong : a ∈ invalidArrows
  behind_head : behind.head? ≠ some '>'

section

variable {g : Heading} {t post : Text} {s : Reader Kind} {pre rest later : Toks}
  {header sender tok : Tok} {es : List Event}

/-- The reader that reads the sender of a message: behind the heading, or behind a line end. -/
theorem exists_line_start (hc : lexStep.Clean (Reader.ofText t)) (hat : s.cursor.At t g.text)
    (hs : lexStep.Reaches (Reader.ofText t) s)
    (hrun : (Scan.run lexStep .eof s).lexed.tokens = pre ++ rest)
    (hpre : ∀ last ∈ pre.getLast?, last.kind = .newline) :
    ∃ r above, lexStep.Reaches (Reader.ofText t) r ∧ r.cursor.At t (g.text ++ above) ∧
      (∀ c ∈ above.getLast?, c = '\n') ∧ (above ≠ [] → modeOf r = .start) ∧
      (Scan.run lexStep .eof r).lexed.tokens = rest := by
  rcases List.eq_nil_or_concat pre with rfl | ⟨init, feed, rfl⟩
  · exact ⟨s, [], hs, by rwa [List.append_nil], (fun c hc => by cases hc),
      (fun h => absurd rfl h), hrun⟩
  · rw [List.concat_eq_append] at hrun hpre
    have hk : feed.kind = .newline := hpre feed List.getLast?_concat
    rw [List.append_assoc, List.singleton_append] at hrun
    obtain ⟨r, earlier, behind, hr, hne, hsteps, hfirst⟩ :=
      (hc.of_reaches hs).exists_reader hrun (by simp [hk])
    have hreach := hs.trans hr
    have hleads := (hc.of_reaches hreach).leads hne
    have hmem : feed ∈ (lexStep r).tokens := by
      rw [hsteps]
      simp
    obtain ⟨x, hrest, htokens⟩ := lexStep_newline hne hleads.errors hmem hk
    obtain ⟨rfl, -⟩ : earlier = [] ∧ behind = [] := by
      rw [htokens] at hsteps
      rcases List.append_eq_singleton_iff.mp hsteps.symm with ⟨h1, h2⟩ | ⟨-, h2⟩
      · exact ⟨h1, (List.cons.inj h2).2⟩
      · cases h2
    obtain ⟨mid, hmid⟩ := lexStep_honest.at_reaches hat hr
    have hskip := hmid.skip 1
    rw [hrest, List.take_succ_cons, List.take_zero] at hskip
    refine ⟨r.after (lexStep r), mid ++ ['\n'], hreach.tail hleads, ?_, ?_, fun _ => ?_, ?_⟩
    · rw [← List.append_assoc]
      have hcursor : (r.after (lexStep r)).cursor = r.cursor.skip 1 := by
        rw [lexStep_lineFeed hrest]
        rfl
      rwa [hcursor]
    · intro c hlast
      rw [List.getLast?_concat] at hlast
      exact (Option.some.inj hlast).symm
    · have hlast : (lexStep r).tokens.getLast? = some feed := by
        rw [htokens]
        rfl
      rw [modeOf_after_token hlast, hk]
      rfl
    · have hnext := hleads.tokens_run Kind.eof
      rw [(hfirst rfl).2, htokens] at hnext
      exact (List.cons.inj hnext).2.symm

/-- A word that an arrow follows is the sender of a message. -/
theorem exists_sender {above : Text} (hc : lexStep.Clean (Reader.ofText t))
    (hr : lexStep.Reaches (Reader.ofText t) s) (hat : s.cursor.At t (g.text ++ above))
    (hstart : above ≠ [] → modeOf s = .start) (hs : sender.kind = .ident)
    (hrun : (Scan.run lexStep .eof s).lexed.tokens = sender :: tok :: later)
    (hk : tok.kind = .invalidArrow) :
    ∃ e lead word gap, lexStep.Reaches (Reader.ofText t) e ∧ e.cursor.rest ≠ [] ∧
      e.cursor.At t (g.text ++ (above ++ (lead ++ (word ++ gap)))) ∧
      Sender (tokenAbove above) lead word gap ∧ e.previous = some sender ∧
      tok ∈ (lexStep e).tokens ∧ (Scan.run lexStep .eof e).lexed.tokens = tok :: later := by
  have hplain : sender.kind ≠ .newline ∧ sender.kind ≠ .eof := by simp [hs]
  obtain ⟨s₁, lead, later₁, hr₁, hne₁, hprev₁, hlead, hblank₁, htok₁, hrun₁⟩ :=
    (hc.of_reaches hr).exists_next lexStep_parts hrun hplain.1 hplain.2
  have hreach₁ := hr.trans hr₁
  have hat₁ := lexStep_honest.at_next hat hr₁ hlead
  have hleads₁ := (hc.of_reaches hreach₁).leads hne₁
  have hmem : sender ∈ (lexStep s₁).tokens := by rw [htok₁]; exact List.mem_cons_self
  obtain ⟨n, ⟨hpos, -, htoks, hcursor, -⟩, hident⟩ := lexStep_alone hne₁ hleads₁.errors hmem (.inl hs)
  have hword : s₁.cursor.rest.take n = s₁.cursor.rest.takeWhile isIdentChar := by
    rw [hident hs]
    exact (List.prefix_iff_eq_take.mp (List.takeWhile_prefix _)).symm
  -- the word is the only token of its step, so the arrow comes next
  have hreach₂ := hreach₁.tail hleads₁
  have hrun₂ := hleads₁.tokens_run Kind.eof
  rw [hrun₁, htoks] at hrun₂
  obtain ⟨e, gap, later₂, hr₂, hne₂, hprev₂, hgap, hblank₂, htok₂, hrun₃⟩ :=
    (hc.of_reaches hreach₂).exists_next lexStep_parts (List.cons.inj hrun₂).2.symm (by simp [hk])
      (by simp [hk])
  have hskip := hat₁.skip n
  rw [← hcursor] at hskip
  have hat₂ := lexStep_honest.at_next (s := s₁.after (lexStep s₁)) hskip hr₂ hgap
  refine ⟨e, lead, s₁.cursor.rest.take n, gap, hreach₂.trans hr₂, hne₂, ?_,
    ⟨hblank₁, ?_, ?_, hblank₂, ?_⟩, ?_, by rw [htok₂]; exact List.mem_cons_self, hrun₃⟩
  · simpa only [List.append_assoc] using hat₂
  · exact List.ne_nil_of_length_pos (by
      rw [List.length_take]
      have := List.length_pos_of_ne_nil hne₁
      omega)
  · intro c hm
    rw [hword] at hm
    exact List.mem_takeWhile_imp hm
  · intro hmode
    have habove : above ≠ [] := by
      rintro rfl
      cases hmode
    have hstep : lexStep s₁ = DiagramLint.Sequence.word s₁ := by
      obtain ⟨c, x, hcons⟩ := List.exists_cons_of_ne_nil hne₁
      refine lexStep_of_ident hcons ?_
      by_contra hc
      rw [hident hs, hcons, List.takeWhile_cons_of_neg hc] at hpos
      exact absurd hpos (Nat.lt_irrefl 0)
    rw [hstep] at hmem
    rcases mem_word hmem with ⟨hkind, himage⟩ | htext
    · rw [hword, ← himage]
      refine not_keyword_of_plain (hkind.symm.trans hs) ?_
      unfold modeOf at hstart ⊢
      rw [hprev₁]
      exact hstart habove
    · rw [hs] at htext
      cases htext
  · rw [hprev₂, Reader.after, htoks]
    rfl

/-- A wrong arrow of a diagram in which nothing but ends is missing, where it stands. -/
theorem HasPage.exists_wrongArrow {gap : Toks} (h : HasPage t post gap rest header)
    (ht : t = g.text ++ post) (hc : lexStep.Clean (Reader.ofText t)) (hterm : Terminated .eof rest)
    (hlines : AreLines rest es) (htok : tok ∈ (tokenize t).tokens) (hk : tok.kind = .invalidArrow) :
    ∃ above lead word gap behind pre later e lead' ahead,
      WrongArrowAt g t above lead word gap tok.image behind ∧
      Found t pre tok later e (g.text ++ (above ++ (lead ++ (word ++ gap)))) lead' ahead := by
  have hrest : tok ∈ rest := by
    rw [h.tokens] at htok
    rcases List.mem_append.mp htok with hgap | htok
    · have := h.gap_newline tok hgap
      rw [hk] at this
      cases this
    · rcases List.mem_cons.mp htok with rfl | htok
      · have := h.header_kind
        rw [hk] at this
        cases this
      · exact htok
  obtain ⟨pre, sender, later, rfl, hs, hpre⟩ := areLines_wrongArrow hlines hterm hrest hk
  obtain ⟨s, hr, hpost, hrun⟩ := h.reader
  have hat : s.cursor.At t g.text := by
    obtain ⟨before, hbefore⟩ := lexStep_honest.at_reaches (Cursor.at_ofText t) hr
    have hsame := hbefore.text_eq
    rw [ht, hpost, List.append_cancel_right_eq, List.nil_append] at hsame
    rwa [← hsame] at hbefore
  obtain ⟨r, above, hr', hat', habove, hstart, hrun'⟩ := exists_line_start hc hat hr hrun hpre
  obtain ⟨e, lead, word, gap, hreach, hne, hat'', hsender, hprev, hmem, hrun''⟩ :=
    exists_sender hc hr' hat' hstart hs hrun' hk
  have hsend : e.previous = [sender].getLast? := hprev
  obtain ⟨before, lead', ahead, hfound⟩ :=
    found_of_reader hc hreach hne hmem (.inr hk) hsend hrun''
  obtain rfl := hat''.unique hfound.cursor_at
  refine ⟨above, lead, word, gap, (e.after (lexStep e)).cursor.rest, [sender], later, e, lead',
    ahead, ⟨?_, habove, hsender, lexStep_wrongArrow hne hfound.leads.errors hmem hk, ?_⟩, hfound⟩
  · have htext := hfound.cursor_at.text_eq
    obtain ⟨x, hx⟩ := hfound.image_isPrefix.trans hfound.ahead_isPrefix
    have hbehind : (e.after (lexStep e)).cursor.rest = x := by
      change (lexStep e).cursor.rest = x
      rw [hfound.step_cursor, Cursor.skip_rest, ← hx, List.drop_left]
    rw [hbehind, hx, htext]
    simp only [List.append_assoc]
  · exact head?_ne_of_clean (hc.of_reaches (hreach.tail hfound.leads))

end

end DiagramLint.Sequence
