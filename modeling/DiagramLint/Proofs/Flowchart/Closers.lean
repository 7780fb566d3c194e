-- A wrong closing bracket in the text. The parser takes the expected bracket
-- from the token that opened the shape; in the text that token stands behind
-- its node, and only the label and blanks stand between it and the bracket
-- that is reported.
import DiagramLint.Proofs.Flowchart.Errors
import DiagramLint.Proofs.Flowchart.Steps
import DiagramLint.Proofs.Lexing.Faithful
import DiagramLint.Proofs.Linter.Codes
import DiagramLint.Proofs.Repair.Brackets

namespace DiagramLint.Flowchart

/-! ## Steps that take a bracket -/

/-- The characters of a label. -/
def labelChars (label : Toks) : Text := label.flatMap (·.image.toList)

/-- A label is made of the characters that it takes, all on one line. -/
theorem label_takes {opener : String} {s : Cursor} (he : (label opener s).errors = []) :
    ∃ n, (label opener s).cursor = s.skip n ∧ '\n' ∉ s.rest.take n ∧
      labelChars (label opener s).tokens = s.rest.take n := by
  revert he
  unfold label takeLabelText
  split
  · rename_i rest hrest
    split
    · exact fun he => by cases he
    · rename_i image hread
      intro _
      obtain ⟨himage, hlay⟩ :=
        lays_quotedLabel hrest hread ((closerFor opener).toList.head? == some ')')
      refine ⟨_, Cursor.skip_skip s _ _, ?_, ?_⟩
      · exact s.newline_not_mem_take ((hlay.inline_le (by decide)).trans s.restOfLine_length_le)
      · rw [himage]
        simp [labelChars, Yield.token, Token.ofText, Cursor.take]
  · intro _
    dsimp only [Cursor.take]
    have hinit := labelText_isPrefix ((closerFor opener).toList.head? == some ')') 0 s.rest
    have hinline := labelText_inline ((closerFor opener).toList.head? == some ')') 0 s.rest
    generalize labelText ((closerFor opener).toList.head? == some ')') 0 s.rest = text at *
    rw [← List.prefix_iff_eq_take.mp hinit]
    have hline : '\n' ∉ s.rest.take text.length := by
      rw [← List.prefix_iff_eq_take.mp hinit]
      exact fun hm => (hinline _ hm).1 rfl
    split
    · rename_i hempty
      rw [List.isEmpty_iff] at hempty
      exact ⟨text.length, rfl, hline, by rw [hempty]; rfl⟩
    · refine ⟨text.length, rfl, hline, ?_⟩
      rw [← List.prefix_iff_eq_take.mp hinit]
      simp [labelChars, Yield.token, Token.ofText]

/-- A step that yields a bracket takes it from the line, an opening one with its label. -/
theorem lexStep_bracket {s : Reader Kind} (hr : s.cursor.rest ≠ []) (he : (lexStep s).errors = [])
    {tok : Tok} {later : Toks} (h : (lexStep s).tokens = tok :: later)
    (hk : tok.kind = .shapeOpen ∨ tok.kind = .shapeClose) :
    tok.place = s.cursor.place ∧ tok.image.toList <+: s.cursor.restOfLine ∧
      (tok.kind = .shapeOpen ∧ tok.image ∈ shapeOpeners ∧ lexStep s = openShape tok.image s.cursor ∨
        tok.kind = .shapeClose ∧ tok.image ∈ shapeClosers) := by
  obtain ⟨c, rest, hrest⟩ := List.exists_cons_of_ne_nil hr
  have htook := lexStep_took hrest he
  generalize lexStep s = y at htook h ⊢
  cases htook with
  | blank | comment => cases h
  | newline | semi | amp | edgeLabel | classRef =>
    cases h
    exact absurd hk (by simp [Token.ofText])
  | link kind n hlink =>
    cases h
    rcases linkAt?_kind hlink with rfl | rfl
    all_goals exact absurd hk (by simp [Token.ofText])
  | shapeOpen opener ho =>
    cases h
    obtain ⟨hmem, hline⟩ := bracketAt?_eq_some ho
    dsimp only [Token.ofText]
    rw [s.cursor.ofList_take_sign hline]
    exact ⟨rfl, hline, .inl ⟨rfl, hmem, rfl⟩⟩
  | shapeClose closer hcl =>
    cases h
    obtain ⟨hmem, hline⟩ := bracketAt?_eq_some hcl
    dsimp only [Token.ofText]
    rw [s.cursor.ofList_take_sign hline]
    exact ⟨rfl, hline, .inr ⟨rfl, hmem⟩⟩
  | word hc =>
    obtain ⟨more, hword, -⟩ := word_tokens s
    rw [hword] at h
    cases h
    dsimp only [Token.ofText] at hk
    rcases wordKind_eq (.of s) _ with hw | hw | hw | hw
    all_goals
      rw [hw] at hk
      simp at hk

/-- The next token of a clean scan comes along with no other. -/
theorem rides_run {s : Reader Kind} (hc : lexStep.Clean s) {tok : Tok} {post : Toks}
    (h : (Scan.run lexStep .eof s).lexed.tokens = tok :: post) : tok.kind.rides = false := by
  by_cases hk : tok.kind = .newline ∨ tok.kind = .eof
  · rcases hk with hk | hk
    all_goals
      rw [hk]
      rfl
  · rw [not_or] at hk
    obtain ⟨s', blanks, later, hr, hne, -, -, -, htok, -⟩ :=
      hc.exists_next lexStep_parts h hk.1 hk.2
    obtain ⟨c, rest, hrest⟩ := List.exists_cons_of_ne_nil hne
    exact ((lexStep_took hrest ((hc.of_reaches hr).leads hne).errors).rides htok).1

/-- What comes along with a token ends at the next token that does not. -/
theorem rides_cancel {a b x y : Toks} (h : a ++ x = b ++ y) (ha : ∀ l ∈ a, l.kind.rides = true)
    (hb : ∀ l ∈ b, l.kind.rides = true) (hx : ∀ tok ∈ x.head?, tok.kind.rides = false)
    (hy : ∀ tok ∈ y.head?, tok.kind.rides = false) : a = b ∧ x = y := by
  have hfront : ∀ {a x : Toks}, (∀ l ∈ a, l.kind.rides = true) →
      (∀ tok ∈ x.head?, tok.kind.rides = false) → (a ++ x).takeWhile (·.kind.rides) = a := by
    intro a x ha hx
    rw [List.takeWhile_append_of_pos ha]
    cases x with
    | nil => simp
    | cons tok x => simp [hx tok rfl]
  have hab : a = b := by rw [← hfront ha hx, h, hfront hb hy]
  exact ⟨hab, by rwa [hab, List.append_cancel_left_eq] at h⟩

/-! ## The shape in the text -/

/-- A shape in the text that is closed by a wrong bracket: the opening bracket behind its node, the
label, blanks, and the closing bracket at the cursor. -/
structure MismatchedText (t : Text) (place : Position) (found : String) (opener : String)
    (label before blanks : Text) (s : Cursor) : Prop where
  opener_mem : opener ∈ shapeOpeners
  found_mem : found ∈ shapeClosers
  before_ends : ∀ c ∈ before.getLast?, isWordChar c = true ∨ Cursor.isBlankChar c = true
  inline : '\n' ∉ opener.toList ++ label
  blanks_blank : ∀ c ∈ blanks, Cursor.isBlankChar c = true
  reached : s.At t (before ++ (opener.toList ++ (label ++ blanks)))
  place_eq : place = s.place
  found_isPrefix : found.toList <+: s.restOfLine

theorem MismatchedShape.exists_text {t : Text} (hc : lexStep.Clean (Reader.ofText t)) {pre rest : Toks}
    {id : Tok} (hts : (tokenize t).tokens = pre ++ id :: rest) (hid : startsNode id = true)
    {place : Position} {found expected : String} {opener closer : Tok} {label post : Toks}
    (h : MismatchedShape rest place found expected opener label closer post) :
    ∃ before blanks s,
      MismatchedText t place found opener.image (labelChars label) before blanks s := by
  have hkind : id.kind ≠ .eof := by
    intro hk
    simp [startsNode, hk] at hid
  rw [h.tokens] at hts
  obtain ⟨r, s, blanks, later, hnext⟩ := hc.exists_neighbours lexStep_parts hts hkind
    (fun r r' hl hm => (lexStep_node hl.rest hl.errors hm hid).1)
    (by rw [h.opener_kind]; decide) (by rw [h.opener_kind]; decide)
  have hstep := hnext.leads_next
  obtain ⟨-, hpos, hcursor, -, himage⟩ := lexStep_node hnext.leads.rest hnext.leads.errors
    (by rw [hnext.tokens]; simp) hid
  obtain ⟨-, hline, ⟨-, hmem, hopen⟩ | ⟨hkind, -⟩⟩ := lexStep_bracket hstep.rest hstep.errors
    hnext.tokens_next (.inl h.opener_kind)
  swap
  · rw [h.opener_kind] at hkind
    cases hkind
  -- the label that the parser takes is the one that came along with the opening bracket
  have herrors := hstep.errors
  rw [hopen] at herrors
  obtain ⟨n, hskip, hlabel, hchars⟩ := label_takes (s := s.cursor.skip opener.image.length) herrors
  have hclean := hc.of_reaches
    (((hnext.reaches.tail hnext.leads).trans hnext.reaches_next).tail hstep)
  have hrun := hstep.tokens_run Kind.eof
  rw [hnext.run_next, hopen] at hrun
  obtain ⟨hsame, hrest⟩ := rides_cancel (List.cons.inj hrun).2
    (fun l hl => by rcases h.label_kind l hl with hk | hk <;> rw [hk] <;> rfl)
    (label_rides _ _)
    (fun tok htok => by rw [← Option.some.inj htok, h.closer_kind]; rfl)
    (fun tok htok => by
      obtain ⟨post', hpost⟩ := List.head?_eq_some_iff.mp htok
      rw [← hopen] at hpost
      exact rides_run hclean hpost)
  rw [← hopen] at hrest
  obtain ⟨s', blanks', later', hreach, hne, -, hgap, hblanks', htok, -⟩ :=
    hclean.exists_next lexStep_parts hrest.symm (by rw [h.closer_kind]; decide)
      (by rw [h.closer_kind]; decide)
  have hlast := (hclean.of_reaches hreach).leads hne
  obtain ⟨hplace, hfound, ⟨hkind, -⟩ | ⟨-, hcloser⟩⟩ := lexStep_bracket hne hlast.errors htok
    (.inr h.closer_kind)
  · rw [h.closer_kind] at hkind
    cases hkind
  obtain ⟨before, -, hat⟩ := hnext.exists_at lexStep_honest hcursor
  have hopener : s.cursor.rest.take opener.image.length = opener.image.toList := by
    rw [← String.length_toList]
    exact (List.prefix_iff_eq_take.mp (hline.trans s.cursor.restOfLine_isPrefix)).symm
  have hbehind := (hat.skip opener.image.length).skip n
  rw [← hchars, ← hsame, hopener, ← hskip] at hbehind
  have hthere := lexStep_honest.at_next (s := s.after (lexStep s))
    (by rw [hopen]; exact hbehind) hreach hgap
  refine ⟨before ++ r.cursor.rest.take (wordAt r.cursor.rest).length ++ blanks, blanks', s'.cursor,
    hmem, h.found_eq ▸ hcloser, ?_, ?_, hblanks', ?_, h.place_eq.trans hplace, h.found_eq ▸ hfound⟩
  · intro c hlast
    have hword : r.cursor.rest.take (wordAt r.cursor.rest).length = wordAt r.cursor.rest :=
      (List.prefix_iff_eq_take.mp (wordAt_isPrefix _)).symm
    rw [hword, List.append_assoc, List.getLast?_append_of_ne_nil _
      (by simp [List.ne_nil_of_length_pos hpos])] at hlast
    rcases List.mem_append.mp (List.mem_of_getLast? hlast) with hm | hm
    · exact .inl (isWordChar_of_mem_wordAt hm)
    · exact .inr (hnext.blanks_blank c hm)
  · rw [← hsame] at hchars
    rw [hchars]
    intro hm
    rcases List.mem_append.mp hm with hm | hm
    · exact s.cursor.newline_not_mem_restOfLine (hline.subset hm)
    · exact hlabel hm
  · simpa only [List.append_assoc] using hthere

/-! ## The repair -/

namespace MismatchedText

variable {t : Text} {place : Position} {found opener : String} {label before blanks : Text}
  {s : Cursor}

/-- The line of a wrong closing bracket, and what stands on it before the opening one. -/
theorem exists_line (h : MismatchedText t place found opener label before blanks s) :
    ∃ x tail,
      LineAt t (before ++ (opener.toList ++ (label ++ blanks)))
        (x ++ (opener.toList ++ (label ++ blanks))) (found.toList ++ tail) ∧
      ∀ c ∈ x.reverse.head?, Shape.opens bracketShapes c = false := by
  have hfound : found.toList ≠ [] := by
    have : ∀ f ∈ shapeClosers, f.toList ≠ [] := by decide
    exact this found h.found_mem
  have hne : s.restOfLine ≠ [] := fun hnil => by
    have hinit := h.found_isPrefix
    rw [hnil, List.prefix_nil] at hinit
    exact hfound hinit
  obtain ⟨lead, ahead, hline, hrest, -⟩ := h.reached.exists_lineAt hne
  obtain ⟨tail, rfl⟩ := h.found_isPrefix.trans hrest
  obtain ⟨x, rfl, hx⟩ := hline.exists_lead (by
    have hblanks : '\n' ∉ blanks := fun hm => absurd (h.blanks_blank _ hm) (by decide)
    have hinline := h.inline
    simp only [List.mem_append, not_or] at hinline ⊢
    exact ⟨hinline.1, hinline.2, hblanks⟩)
  refine ⟨x, tail, hline, ?_⟩
  intro c hc
  rw [List.head?_reverse] at hc
  obtain ⟨above, rfl⟩ := hx
  have hbracket : ∀ b ∈ ['(', '[', '\x7b'], isWordChar b = false ∧ Cursor.isBlankChar b = false := by
    intro b hb
    simp only [List.mem_cons, List.not_mem_nil, or_false] at hb
    rcases hb with rfl | rfl | rfl
    all_goals decide
  rw [← Bool.not_eq_true, bracketShapes_opens_iff]
  intro hopens
  obtain ⟨hword, hblank⟩ := hbracket c (by simpa using hopens)
  rcases h.before_ends c (by rw [List.getLast?_append, hc]; rfl) with hc | hc
  · rw [hword] at hc
    cases hc
  · rw [hblank] at hc
    cases hc

/-- The repair finds the opening bracket of the shape when the brackets in the label match. -/
theorem unmatched?_eq (h : MismatchedText t place found opener label before blanks s)
    (hopener : opener ≠ ">") (hlabel : Shape.Matched bracketShapes label) {x : Text}
    (hx : ∀ c ∈ x.reverse.head?, Shape.opens bracketShapes c = false) (ahead : Text) {n : Nat}
    (hn : n = (x ++ (opener.toList ++ (label ++ blanks))).length) :
    (Shape.unmatched? bracketShapes
      ⟨x ++ (opener.toList ++ (label ++ blanks)) ++ ahead, n⟩).map (·.2) =
      some ⟨opener.toList, (closerFor opener).toList⟩ := by
  have hshapes : ∀ o ∈ shapeOpeners, o ≠ ">" →
      ⟨o.toList, (closerFor o).toList⟩ ∈ bracketShapes ∧
        o.toList.reverse.head?.any (Shape.opens bracketShapes) = true := by decide
  obtain ⟨hshape, hhead⟩ := hshapes opener h.opener_mem hopener
  obtain ⟨c, hc, hopens⟩ := (Option.any_eq_true _ _).mp hhead
  obtain ⟨more, hmore⟩ := List.head?_eq_some_iff.mp hc
  have hplain : ∀ c ∈ blanks,
      Shape.opens bracketShapes c = false ∧ Shape.closes bracketShapes c = false := by
    intro c hc
    have hblank := h.blanks_blank c hc
    simp only [Cursor.isBlankChar, Bool.or_eq_true, beq_iff_eq] at hblank
    rcases hblank with (rfl | rfl) | rfl
    all_goals decide
  have hback := Shape.unmatchedOpener?_label hlabel hplain hopens (more ++ x.reverse)
  rw [← List.cons_append, ← hmore] at hback
  unfold Shape.unmatched? Caret.before
  rw [hn, List.take_left, List.reverse_append, List.reverse_append, List.append_assoc, hback]
  dsimp only [Option.bind_eq_bind, Option.bind_some]
  rw [longest_bracketShape hshape hx]
  rfl

/-- The characters that the repair looks at are the ones reported, so it replaces these. -/
theorem repairBracket_eq (h : MismatchedText t place found opener label before blanks s)
    {lead tail : Text} (hline : LineAt t (before ++ (opener.toList ++ (label ++ blanks))) lead
      (found.toList ++ tail)) (expected : String) :
    repairBracket bracketShapes t
        ((explain (.mismatchedCloser place found expected)).clampTo t) =
      .ok ((Shape.unmatched? bracketShapes ⟨lead ++ (found.toList ++ tail), lead.length⟩).bind
        fun open' => if found.toList = open'.2.closer then none
          else some (.safe (.replaceSpan place.line place.column found.length open'.2.closer))) := by
  have hclosers : ∀ f ∈ shapeClosers, f.toList ≠ [] ∧
      f.toList.all (Shape.closes bracketShapes) = true := by decide
  obtain ⟨hne, hall⟩ := hclosers found h.found_mem
  have hplace : place = placeAfter (before ++ (opener.toList ++ (label ++ blanks))) :=
    h.place_eq.trans h.reached.place_eq
  have hcolumn : place.column = lead.length + 1 := by rw [hplace, hline.column_eq]
  have hlength : 0 < found.length := by
    rw [← String.length_toList]
    exact List.length_pos_of_ne_nil hne
  generalize hd : (explain (.mismatchedCloser place found expected)).clampTo t = d
  have hwhere : d.line = place.line ∧ d.column = lead.length + 1 + 0 := by
    have hmade : (explain (.mismatchedCloser place found expected)).place =
        ⟨max (placeAfter (before ++ (opener.toList ++ (label ++ blanks)))).line 1,
          max (lead.length + 1 + 0) 1⟩ := by
      rw [← hplace, Nat.add_zero, ← hcolumn]
      rfl
    rw [← hd, hplace]
    exact hplace ▸ hline.clampTo (Nat.zero_le _) hmade
  have hcaret := hline.caret (Nat.zero_le _) (hplace ▸ hwhere.1) hwhere.2
  have hwide : d.spanLength = found.length := by
    rw [← hd]
    change max (max found.length 1) 1 = _
    omega
  have hspan : (Caret.mk (lead ++ (found.toList ++ tail)) (lead.length + 0)).spanned d =
      found.toList := by
    rw [Caret.spanned, Caret.ahead, Nat.add_zero, List.drop_left, hwide, ← String.length_toList,
      List.take_left]
  have hfits : (Caret.mk (lead ++ (found.toList ++ tail)) (lead.length + 0)).Fits d := by
    right
    simp only [hwide, List.length_append, ← String.length_toList]
    omega
  rw [repairBracket_of_span hcaret hfits (by rwa [hspan]) (by rwa [hspan]), hspan, hwhere.1,
    hcolumn, String.length_toList, Nat.add_zero]

end MismatchedText

/-- What the repair of a wrong closing bracket does: it replaces the characters that are reported,
and by the expected ones whenever the shape is not opened by `>` and the brackets in its label
match. -/
structure Swaps (t : Text) (strategy : Strategy) (place : Position) (found expected : String)
    (opener : String) (label : Text) : Prop where
  stands : ∃ lead tail, t.line? place.line = some (lead ++ (found.toList ++ tail)) ∧
    place.column = lead.length + 1
  returns : ∃ p, strategy.propose t ((explain (.mismatchedCloser place found expected)).clampTo t) =
    .ok p
  swap : ∀ p, strategy.propose t ((explain (.mismatchedCloser place found expected)).clampTo t) =
    .ok (some p) → ∃ newText, p = .safe (.replaceSpan place.line place.column found.length newText)
  as_expected : opener ≠ ">" → Shape.Matched bracketShapes label →
    strategy.propose t ((explain (.mismatchedCloser place found expected)).clampTo t) =
      .ok (some (.safe (.replaceSpan place.line place.column found.length expected.toList)))

theorem MismatchedText.swaps {t : Text} {place : Position} {found opener : String}
    {label before blanks : Text} {s : Cursor}
    (h : MismatchedText t place found opener label before blanks s)
    (hne : found ≠ closerFor opener) :
    Swaps t (.repairBracket bracketShapes) place found (closerFor opener) opener label := by
  obtain ⟨x, tail, hline, hx⟩ := h.exists_line
  have hplace : place = placeAfter (before ++ (opener.toList ++ (label ++ blanks))) :=
    h.place_eq.trans h.reached.place_eq
  refine ⟨⟨_, tail, hplace ▸ hline.line?_eq, hplace ▸ hline.column_eq⟩,
    ⟨_, h.repairBracket_eq hline _⟩, ?_, ?_⟩
  · intro p hp
    rw [Strategy.propose, h.repairBracket_eq hline, Except.ok.injEq] at hp
    obtain ⟨left, -, hp⟩ := Option.bind_eq_some_iff.mp hp
    split at hp
    · cases hp
    · exact ⟨left.2.closer, (Option.some.inj hp).symm⟩
  · intro hopener hlabel
    obtain ⟨left, hleft, hshape⟩ := Option.map_eq_some_iff.mp
      (h.unmatched?_eq hopener hlabel hx (found.toList ++ tail) rfl)
    rw [Strategy.propose, h.repairBracket_eq hline, hleft, Option.bind_some, hshape, if_neg]
    exact fun hsame => hne (String.toList_injective hsame)

/-- A wrong closing bracket is replaced where it stands, and by the bracket that the parser
expects, unless the shape is opened by `>` or brackets in its label do not match. -/
theorem a_wrong_closing_bracket_is_replaced_where_it_stands (t : Text) {place : Position}
    {found expected : String}
    (he : .mismatchedCloser place found expected ∈ (grammar.parseOf (tokenize t)).errors)
    {strategy : Strategy} (hs : Registry.builtin.get? Code.shapeMismatchedCloser = some strategy) :
    ∃ pre id rest opener label closer post, (tokenize t).tokens = pre ++ id :: rest ∧
      MismatchedShape rest place found expected opener label closer post ∧
      Swaps t strategy place found expected opener.image (labelChars label) := by
  have hcatalog : Registry.builtin.get? Code.shapeMismatchedCloser =
      some (.repairBracket bracketShapes) := rfl
  rw [hcatalog, Option.some.injEq] at hs
  obtain ⟨hclean, he⟩ := Grammar.errors_of_mem_parseOf he
  obtain ⟨pre, id, rest, opener, label, closer, post, hts, hid, hshape⟩ := parse_mismatched he
  obtain ⟨before, blanks, s, htext⟩ :=
    hshape.exists_text ((Scan.errors_eq_nil_iff (scan_eq_finished t)).mp hclean) hts hid
  refine ⟨pre, id, rest, opener, label, closer, post, hts, hshape, ?_⟩
  rw [← hs, hshape.expected_eq]
  exact htext.swaps (hshape.expected_eq ▸ hshape.differ)

/-- A flowchart in which the box around a call is closed by a brace. -/
def wrongBrace : Text := "flowchart TD\nA[f(x)\x7d".toList

theorem wrongBrace_is_replaced_where_it_stands :
    ParseError.mismatchedCloser ⟨2, 7⟩ "\x7d" "]" ∈ (grammar.parseOf (tokenize wrongBrace)).errors ∧
      ∃ pre id rest opener label closer post,
        (tokenize wrongBrace).tokens = pre ++ id :: rest ∧
          MismatchedShape rest ⟨2, 7⟩ "\x7d" "]" opener label closer post ∧
          Swaps wrongBrace (.repairBracket bracketShapes) ⟨2, 7⟩ "\x7d" "]" opener.image
            (labelChars label) := by
  have he : ParseError.mismatchedCloser ⟨2, 7⟩ "\x7d" "]" ∈
      (grammar.parseOf (tokenize wrongBrace)).errors := by decide +kernel
  exact ⟨he, a_wrong_closing_bracket_is_replaced_where_it_stands wrongBrace he rfl⟩

/-- A flowchart whose quoted label holds a parenthesis, in a box closed by a brace. -/
def quotedParen : Text := "flowchart TD\nA[\"(\"\x7d".toList

/-- The repair counts the parenthesis in the quoted label as the one that is open. -/
theorem a_box_around_a_quoted_parenthesis_is_closed_as_one :
    ¬ ∀ (t : Text) (place : Position) (found expected : String),
      ParseError.mismatchedCloser place found expected ∈ (grammar.parseOf (tokenize t)).errors →
      ∀ strategy p, Registry.builtin.get? Code.shapeMismatchedCloser = some strategy →
        strategy.propose t ((explain (.mismatchedCloser place found expected)).clampTo t) =
          .ok (some p) → p.edits = [.replaceSpan place.line place.column found.length expected.toList] := by
  intro h
  have he : ParseError.mismatchedCloser ⟨2, 6⟩ "\x7d" "]" ∈
      (grammar.parseOf (tokenize quotedParen)).errors := by decide +kernel
  have hp : (Strategy.repairBracket bracketShapes).propose quotedParen
      ((explain (.mismatchedCloser ⟨2, 6⟩ "\x7d" "]")).clampTo quotedParen) =
      .ok (some (.safe (.replaceSpan 2 6 1 [')']))) := by decide +kernel
  have hedits := h quotedParen ⟨2, 6⟩ "\x7d" "]" he _ _ rfl hp
  have htext : [')'] = [']'] := congrArg Edit.newText (List.cons.inj hedits).1
  exact absurd htext (by decide)

end DiagramLint.Flowchart
