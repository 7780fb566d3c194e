-- The built-in repairs spare the heading of a text, as long as their
-- diagnostics stand behind it. How far behind depends on the repair: one
-- that edits at its diagnostic needs it past the header word, one that
-- looks for a bracket or a quotation mark needs it on the header line or
-- below, and one that closes a block finds its own place.
import DiagramLint.Proofs.Header.Sparing
import DiagramLint.Proofs.Repair.Selection
import DiagramLint.Proofs.Repair.Spans

namespace DiagramLint

open Text

/-! ## Diagnostics behind the heading -/

/-- The codes repaired right where their diagnostics point. -/
def pointCodes : List String :=
  [Code.arrowInvalid, Code.seqArrowInvalid, Code.keywordMisspelled, Code.statementTrailingTokens,
    Code.pieMissingColon, Code.seqMessageMissingColon, Code.linkMissingArrow]

/-- The codes repaired somewhere on the line of their diagnostics. -/
def lineCodes : List String :=
  [Code.labelEscapedQuote, Code.labelRawQuote, Code.labelParenInLabel, Code.shapeMismatchedCloser,
    Code.shapeUnclosed, Code.directionMissing]

/-- A diagnostic whose repair spares the heading. -/
structure Heading.Behind (g : Heading) (t : Text) (d : Diagnostic) : Prop where
  point : ∀ code ∈ d.code, code ∈ pointCodes → g.Past t d.place
  line : ∀ code ∈ d.code, code ∈ lineCodes → g.line ≤ d.line
  no_brace : d.code ≠ some Code.stateBlockMissingBrace

namespace Heading

variable {g : Heading} {t : Text} {d : Diagnostic} {c : Caret}

theorem behind_of_past {code : String} (hc : d.code = some code) (hp : g.Past t d.place)
    (hb : code ≠ Code.stateBlockMissingBrace) : g.Behind t d where
  point := fun _ _ _ => hp
  line := fun _ _ _ => hp.line_le
  no_brace := by simpa [hc] using hb

theorem behind_of_line {code : String} (hc : d.code = some code) (hl : g.line ≤ d.line)
    (hp : code ∉ pointCodes) (hb : code ≠ Code.stateBlockMissingBrace) : g.Behind t d where
  point := by
    intro code' hcode hmem
    rw [hc, Option.mem_some_iff] at hcode
    exact absurd (hcode ▸ hmem) hp
  line := fun _ _ _ => hl
  no_brace := by simpa [hc] using hb

theorem behind_of_code {code : String} (hc : d.code = some code) (hp : code ∉ pointCodes)
    (hl : code ∉ lineCodes) (hb : code ≠ Code.stateBlockMissingBrace) : g.Behind t d where
  point := by
    intro code' hcode hmem
    rw [hc, Option.mem_some_iff] at hcode
    exact absurd (hcode ▸ hmem) hp
  line := by
    intro code' hcode hmem
    rw [hc, Option.mem_some_iff] at hcode
    exact absurd (hcode ▸ hmem) hl
  no_brace := by simpa [hc] using hb

theorem Behind.clampTo (hg : g.Opens t) (h : g.Behind t d) : g.Behind t (d.clampTo t) where
  point := fun code hc hm => (h.point code hc hm).clamp hg
  line := fun code hc hm => hg.line_le_clamp (p := d.place) (h.line code hc hm)
  no_brace := h.no_brace

/-! ## Where a caret stands -/

theorem caret_spec (h : Caret.of? t d = some c) :
    0 < d.line ∧ d.line ≤ t.lineCount ∧ (t.line d.line).content = c.line ∧
      c.index = min (d.column - 1) c.line.length := by
  obtain ⟨content, hline, hc⟩ := Option.map_eq_some_iff.mp h
  unfold line? at hline
  split at hline
  · cases hline
  · rename_i hpos
    obtain ⟨l, hget, hcontent⟩ := Option.map_eq_some_iff.mp hline
    obtain ⟨hlt, -⟩ := List.getElem?_eq_some_iff.mp hget
    have hcount : d.line ≤ t.lineCount := by
      unfold lineCount
      omega
    have hclamp : t.clampLine d.line = d.line := by
      unfold clampLine
      omega
    have hl := line_eq_getElem t d.line
    rw [hclamp, hget] at hl
    subst hc
    exact ⟨Nat.pos_of_ne_zero hpos, hcount, by rw [← Option.some.inj hl]; exact hcontent, rfl⟩

theorem past_of_line_lt (hc : Caret.of? t d = some c) (hlt : g.line < d.line) (column : Nat) :
    g.Past t ⟨d.line, column⟩ :=
  Or.inl ⟨hlt, (caret_spec hc).2.1⟩

/-- The caret of a diagnostic on the header line. -/
theorem Opens.exists_caret_line (hg : g.Opens t) (hc : Caret.of? t d = some c)
    (hd : d.line = g.line) : ∃ tail, c.line = g.lead ++ g.word ++ tail ∧ FollowsWord tail ∧
      (t.line g.line).width = c.line.length := by
  obtain ⟨tail, hline, htail, -⟩ := hg.exists_line
  obtain ⟨-, -, hcontent, -⟩ := caret_spec hc
  rw [hd, hline] at hcontent
  refine ⟨tail, hcontent.symm, htail, ?_⟩
  rw [hline, Line.width, ← hcontent]

theorem Opens.column_le_index (hg : g.Opens t) (hc : Caret.of? t d = some c)
    (hp : g.Past t d.place) (hd : d.line = g.line) : g.column ≤ c.index := by
  obtain ⟨tail, hline, -, hwidth⟩ := hg.exists_caret_line hc hd
  obtain ⟨-, -, -, hindex⟩ := caret_spec hc
  rcases hp with ⟨h1, -⟩ | ⟨-, h2, h3⟩
  · exact absurd hd (Nat.ne_of_gt h1)
  · simp only [Diagnostic.place] at h2
    omega

/-- What stands past the heading is still past it where the caret is. -/
theorem Opens.past_caret (hg : g.Opens t) (hc : Caret.of? t d = some c)
    (hp : g.Past t d.place) : g.Past t ⟨d.line, c.index + 1⟩ := by
  rcases hp with ⟨h1, -⟩ | ⟨h1, h2, h3⟩
  · exact past_of_line_lt hc h1 _
  · have := hg.column_le_index hc (Or.inr ⟨h1, h2, h3⟩) h1
    exact Or.inr ⟨h1, by simp only; omega, h3⟩

/-! ## Characters that no heading holds -/

/-- A character that neither stands in a header word nor ends it. -/
def isMark (c : Char) : Bool := !isIdentChar c && !endsWord c

/-- What comes behind a mark on the header line comes past the heading. -/
theorem Opens.past_of_mark (hg : g.Opens t) (hc : Caret.of? t d = some c) (hle : g.line ≤ d.line)
    {i j : Nat} {ch : Char} (hget : c.line[i]? = some ch) (hmark : isMark ch = true) (hij : i ≤ j) :
    g.Past t ⟨d.line, j + 1⟩ := by
  rcases Nat.lt_or_eq_of_le hle with hlt | heq
  · exact past_of_line_lt hc hlt _
  · obtain ⟨tail, hline, htail, hwidth⟩ := hg.exists_caret_line hc heq.symm
    simp only [isMark, Bool.and_eq_true, Bool.not_eq_true'] at hmark
    obtain ⟨hlt, -⟩ := List.getElem?_eq_some_iff.mp hget
    have hbehind : (g.lead ++ g.word).length < i := by
      by_contra hnot
      rcases Nat.lt_or_eq_of_le (Nat.not_lt.mp hnot) with hi | hi
      · rw [hline, List.getElem?_append_left hi] at hget
        rcases List.mem_append.mp (List.mem_of_getElem? hget) with hm | hm
        · simp [endsWord, g.lead_blank ch hm] at hmark
        · simp [g.word_header.ident ch hm] at hmark
      · rw [hline, List.getElem?_append_right (Nat.le_of_eq hi.symm), hi, Nat.sub_self,
          ← List.head?_eq_getElem?] at hget
        simp [htail ch hget] at hmark
    refine Or.inr ⟨heq.symm, ?_, ?_⟩
    · simp only [Heading.column]
      omega
    · rw [hwidth, Heading.column]
      omega

/-! ## Runs of characters read backwards -/

theorem length_takeWhile_le_of_false {p : Char → Bool} {ch : Char} (hp : p ch = false)
    (a b : Text) : ((a ++ ch :: b).takeWhile p).length ≤ a.length := by
  induction a with
  | nil => simp [hp]
  | cons x rest ih =>
    rw [List.cons_append, List.takeWhile_cons]
    split
    · simpa using ih
    · simp

/-- A run read backwards from the end of a text stops at a character outside it. -/
theorem length_reverse_takeWhile_le {p : Char → Bool} {l : Text} {k : Nat} {ch : Char}
    (hget : l[k]? = some ch) (hp : p ch = false) :
    (l.reverse.takeWhile p).length + (k + 1) ≤ l.length := by
  obtain ⟨hlt, hk⟩ := List.getElem?_eq_some_iff.mp hget
  have hsplit : l = l.take k ++ ch :: l.drop (k + 1) := by
    rw [← hk, ← List.drop_eq_getElem_cons hlt, List.take_append_drop]
  have hrev : l.reverse = (l.drop (k + 1)).reverse ++ ch :: (l.take k).reverse := by
    conv_lhs => rw [hsplit]
    simp
  have hle := length_takeWhile_le_of_false hp (l.drop (k + 1)).reverse (l.take k).reverse
  rw [← hrev, List.length_reverse, List.length_drop] at hle
  omega

/-! ## Repairs at a diagnostic -/

theorem Opens.spares_replaceToken (hg : g.Opens t) (hd : g.Past t d.place) {replacement : Text}
    {p : Proposal} (h : replaceToken replacement t d = .ok (some p)) : ∀ e ∈ p.edits, g.Spares t e := by
  obtain ⟨c, hc, -, rfl⟩ := replaceToken_eq_some h
  intro e he
  rw [List.mem_singleton.mp he]
  exact hg.spares_replaceSpan (hg.past_caret hc hd)

theorem isWordChar_of_endsWord {ch : Char} (h : endsWord ch = true) : isWordChar ch = false := by
  have hident := isIdentChar_of_endsWord h
  simp only [isIdentChar, Bool.or_eq_false_iff] at hident
  have hdash : (ch == '-') = false := by
    rw [beq_eq_false_iff_ne]
    rintro rfl
    exact absurd h (by decide)
  rw [isWordChar, hident.1, hident.2, hdash]
  rfl

/-- The word around a diagnostic does not reach back to the header word. -/
theorem Opens.spares_replaceKeyword (hg : g.Opens t) (hd : g.Past t d.place)
    {keywords : List String} {p : Proposal} (h : replaceKeyword keywords t d = some p) :
    ∀ e ∈ p.edits, g.Spares t e := by
  obtain ⟨c, newText, hc, rfl⟩ := replaceKeyword_eq_some h
  intro e he
  rw [List.mem_singleton.mp he]
  refine hg.spares_replaceSpan ?_
  rcases hd with ⟨hlt, -⟩ | ⟨heq, hcol, hwide⟩
  · exact past_of_line_lt hc hlt _
  · have hindex := hg.column_le_index hc (Or.inr ⟨heq, hcol, hwide⟩) heq
    obtain ⟨tail, hline, htail, hwidth⟩ := hg.exists_caret_line hc heq
    obtain ⟨-, -, -, hmin⟩ := caret_spec hc
    -- the character behind the header word ends the run
    have hn : (g.lead ++ g.word).length < c.line.length := by
      unfold Heading.column at hindex
      omega
    have hget : c.before[(g.lead ++ g.word).length]? = some c.line[(g.lead ++ g.word).length] := by
      unfold Heading.column at hindex
      rw [Caret.before, List.getElem?_take_of_lt (by omega), List.getElem?_eq_getElem hn]
    have hends : endsWord c.line[(g.lead ++ g.word).length] = true := by
      refine htail _ ?_
      rw [Option.mem_def, List.head?_eq_getElem?, ← List.getElem?_eq_getElem hn, hline,
        List.getElem?_append_right (Nat.le_refl _), Nat.sub_self]
    have hrun := length_reverse_takeWhile_le hget (isWordChar_of_endsWord hends)
    have hbefore : c.before.length ≤ c.index := by
      rw [Caret.before, List.length_take]
      omega
    refine Or.inr ⟨heq, ?_, hwide⟩
    simp only [Caret.countBefore, Heading.column]
    omega

theorem newline_ends (t rest : Text) :
    t.newline ++ rest ≠ [] ∧ FollowsWord (t.newline ++ rest) := by
  unfold Text.newline
  split
  · exact ⟨by simp, followsWord_append rest (by simp) (by decide)⟩
  · exact ⟨by simp, followsWord_append rest (by simp) (by decide)⟩

theorem length_le_takeWhile_reverse (g : Heading) {l rest : Text}
    (hl : l = g.lead ++ g.word ++ rest) :
    (l.reverse.takeWhile isWhiteSpace).length + (g.lead ++ g.word).length ≤ l.length := by
  obtain ⟨y, ch, hconcat, hch⟩ := g.exists_word_concat
  have hget : l[y.length]? = some ch := by
    rw [hl, hconcat]
    simp
  have := length_reverse_takeWhile_le hget hch
  rw [hconcat, List.length_append, List.length_singleton]
  exact this

theorem Opens.spares_splitStatement (hg : g.Opens t) (hd : g.Past t d.place) {p : Proposal}
    (h : splitStatement t d = some p) : ∀ e ∈ p.edits, g.Spares t e := by
  obtain ⟨c, index, cut, hc, rfl, rfl, hlt, rfl⟩ := splitStatement_eq_some h
  intro e he
  rw [List.mem_singleton.mp he]
  obtain ⟨hne, hends⟩ := newline_ends t c.line.indent
  rcases hd with ⟨hline, -⟩ | ⟨heq, hcol, hwide⟩
  · exact hg.spares_of_past (past_of_line_lt hc hline _) (past_of_line_lt hc hline _)
  · have hindex := hg.column_le_index hc (Or.inr ⟨heq, hcol, hwide⟩) heq
    obtain ⟨tail, hline, -, -⟩ := hg.exists_caret_line hc heq
    unfold Heading.column at hindex
    have htake : c.line.take (c.index + c.countAhead isWhiteSpace) = g.lead ++ g.word ++
        tail.take (c.index + c.countAhead isWhiteSpace - (g.lead ++ g.word).length) := by
      rw [hline, List.take_append, List.take_of_length_le (by omega)]
    have hrun := g.length_le_takeWhile_reverse htake
    rw [List.length_take] at hrun
    refine hg.spares_of_reaches (Or.inr ⟨heq, ?_⟩) (Or.inr ⟨heq, ?_⟩) hne hends
    · simp only [Edit.replace, Heading.column]
      omega
    · simp only [Edit.replace, Edit.ending, Option.getD_some, Heading.column]
      omega

theorem Opens.spares_insertText_caret (hg : g.Opens t) (hd : g.Past t d.place) {text : Text}
    {level : Level} {p : Proposal} (h : insertText text .caret level t d = some p) :
    ∀ e ∈ p.edits, g.Spares t e := by
  obtain ⟨c, hc, rfl | rfl⟩ := insertText_eq_some h
  · intro e he
    rw [List.mem_singleton.mp he]
    exact hg.spares_replaceSpan (hg.past_caret hc hd)
  · intro e he
    rw [List.mem_singleton.mp he]
    exact hg.spares_insert (hg.past_caret hc hd)

/-! ## Repairs of a line -/

/-- The end of the header line, without the white space there, is at the header word or behind. -/
theorem Opens.reaches_lineEnd (hg : g.Opens t) (hc : Caret.of? t d = some c)
    (hle : g.line ≤ d.line) (n : Nat) : g.Reaches t ⟨d.line, c.line.trimEnd.length + 1 + n⟩ := by
  rcases Nat.lt_or_eq_of_le hle with hlt | heq
  · exact Or.inl ⟨hlt, (caret_spec hc).2.1⟩
  · obtain ⟨tail, hline, -, -⟩ := hg.exists_caret_line hc heq.symm
    have hrun := g.length_le_takeWhile_reverse hline
    have hsplit := congrArg List.length
      (List.takeWhile_append_dropWhile (p := isWhiteSpace) (l := c.line.reverse))
    rw [List.length_append, List.length_reverse] at hsplit
    refine Or.inr ⟨heq.symm, ?_⟩
    simp only [Heading.column, trimEnd, dropEndWhile, List.length_reverse]
    omega

theorem Opens.spares_insertText_lineEnd (hg : g.Opens t) (hd : g.line ≤ d.line) {text : Text}
    (hne : text ≠ []) (hends : FollowsWord text) {level : Level} {p : Proposal}
    (h : insertText text .lineEnd level t d = some p) : ∀ e ∈ p.edits, g.Spares t e := by
  obtain ⟨c, hc, rfl | rfl⟩ := insertText_eq_some h
  · intro e he
    rw [List.mem_singleton.mp he]
    exact hg.spares_of_reaches (hg.reaches_lineEnd hc hd 0) (hg.reaches_lineEnd hc hd 1) hne hends
  · intro e he
    rw [List.mem_singleton.mp he]
    exact hg.spares_of_reaches (hg.reaches_lineEnd hc hd 0) (hg.reaches_lineEnd hc hd 0) hne hends

/-- Labels and raw forms start with marks, which the heading does not hold. -/
theorem Opens.spares_encodeLabel (hg : g.Opens t) (hd : g.line ≤ d.line)
    {rules : List EncodeRule} {delimiters : List Delimiter}
    (hr : ∀ r ∈ rules, r.raw.head?.any isMark = true)
    (hm : ∀ x ∈ delimiters, isMark x.opener = true) {p : Proposal}
    (h : encodeLabel rules delimiters t d = .ok (some p)) : ∀ e ∈ p.edits, g.Spares t e := by
  obtain ⟨c, hc, ⟨span, newText, hspan, hedits⟩ | ⟨rule, hrule, hraw, hedits⟩⟩ :=
    encodeLabel_eq_some h
  · obtain ⟨x, hx, hget⟩ := enclosingSpan?_opening hspan
    intro e he
    rw [hedits, List.mem_singleton] at he
    rw [he]
    exact hg.spares_replaceSpan
      (hg.past_of_mark hc hd hget (hm x hx) (Nat.le_of_lt (span.opening_lt_inside c.line)))
  · obtain ⟨ch, hhead, hmark⟩ := (Option.any_eq_true _ _).mp (hr rule hrule)
    obtain ⟨more, hmore⟩ := List.isPrefixOf_iff_prefix.mp hraw
    have hget : c.line[c.index]? = some ch := by
      rw [← List.head?_drop]
      change c.ahead.head? = some ch
      rw [← hmore, List.head?_append, hhead]
      rfl
    intro e he
    rw [hedits, List.mem_singleton] at he
    rw [he]
    exact hg.spares_replaceSpan (hg.past_of_mark hc hd hget hmark (Nat.le_refl _))

/-- Brackets are marks, and a bracket is repaired only behind one. -/
theorem Opens.spares_repairBracket (hg : g.Opens t) (hd : g.line ≤ d.line) {shapes : List Shape}
    (hs : ∀ s ∈ shapes, s.opener.all isMark = true) {p : Proposal}
    (h : repairBracket shapes t d = .ok (some p)) : ∀ e ∈ p.edits, g.Spares t e := by
  obtain ⟨c, openEnd, shape, hc, hunmatched, hp⟩ := repairBracket_eq_some h
  obtain ⟨hle, ch, hopens, hpos, hget⟩ := Shape.unmatched?_spec hunmatched
  have hmark : isMark ch = true := by
    obtain ⟨s, hs', hch⟩ := List.any_eq_true.mp hopens
    exact List.all_eq_true.mp (hs s hs') ch (List.contains_iff_mem.mp hch)
  rcases hp with rfl | rfl
  · intro e he
    rw [List.mem_singleton.mp he]
    exact hg.spares_replaceSpan (hg.past_of_mark hc hd hget hmark (by omega))
  · intro e he
    rw [List.mem_singleton.mp he]
    exact hg.spares_insert (hg.past_of_mark hc hd hget hmark (by omega))

end Heading

end DiagramLint
