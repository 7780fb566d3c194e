-- The header line as a whole. Repairs of what stands below it leave the line
-- as it is, and an edit right behind the header word changes only what the
-- line goes on with.
import DiagramLint.Proofs.Header.Passes
import DiagramLint.Proofs.Linter.Codes

namespace DiagramLint

open Text

namespace Heading

variable {g : Heading} {t x post : Text}

/-! ## What the header line goes on with -/

/-- A text whose header line goes on with `x` behind the header word; `post` is the rest of the
text. -/
structure Continues (g : Heading) (x post t : Text) : Prop where
  text_eq : t = g.text ++ (x ++ post)
  inline : '\n' ∉ x
  follows : FollowsWord x
  ends : ∀ c ∈ post.head?, c = '\n'

theorem Continues.opens (h : g.Continues x post t) : g.Opens t := by
  refine ⟨x ++ post, h.text_eq, ?_⟩
  cases x with
  | nil =>
    intro c hc
    rw [h.ends c hc]
    decide
  | cons c rest => exact followsWord_append _ (List.cons_ne_nil _ _) h.follows

theorem count_text (g : Heading) : g.text.count '\n' + 1 = g.line := by
  rw [text, List.count_append, List.count_eq_zero_of_not_mem g.newline_not_mem]
  rfl

/-- The text up to the line below the header line, if there is one. -/
theorem Continues.count_eq (h : g.Continues x post t) : (g.text ++ x).count '\n' + 1 = g.line := by
  rw [List.count_append, List.count_eq_zero_of_not_mem h.inline, Nat.add_zero, g.count_text]

/-- A place on a lower line has its offset behind the header line and its line feed. -/
theorem Continues.le_offset (h : g.Continues x post t) {p : Position}
    (hlt : g.line < t.clampLine p.line) :
    ∃ b, post = '\n' :: b ∧ byteSize (g.text ++ x ++ ['\n']) ≤ t.offset p := by
  have hcount := h.count_eq
  cases post with
  | nil =>
    -- the header line is the last one
    have hlast := (clampLine_bounds t p.line).2
    rw [lineCount_eq_count, h.text_eq, List.append_nil] at hlast
    rw [h.text_eq, List.append_nil] at hlt
    omega
  | cons c b =>
    cases h.ends c rfl
    refine ⟨b, rfl, ?_⟩
    have hsplit : t = g.text ++ x ++ ['\n'] ++ b := by rw [h.text_eq]; simp
    rw [hsplit] at hlt ⊢
    refine byteSize_le_offset (by simp) ?_
    rw [List.count_append, List.count_singleton_self]
    omega

/-- A text that opens with a heading has a header line that goes on in some way. -/
theorem Opens.exists_continues (h : g.Opens t) : ∃ x post, g.Continues x post t := by
  obtain ⟨post, rfl, hpost⟩ := h
  rcases eq_line_or_append post with hno | ⟨a, b, ha, rfl⟩
  · exact ⟨post, [], by simp, hno, hpost, by simp⟩
  · exact ⟨a, '\n' :: b, rfl, ha, hpost.of_isPrefix (List.prefix_append _ _), by simp⟩

/-- The header line holds what it goes on with, up to the carriage return of a line end. -/
theorem Continues.exists_lines (h : g.Continues x post t) :
    ∃ ls tail below, t.lines = ls ++ ⟨byteSize g.above, g.lead ++ g.word ++ tail⟩ :: below ∧
      ls.length + 1 = g.line ∧ (∀ l ∈ ls, significant l.content = false) ∧
      (tail = x ∨ x = tail ++ ['\r']) := by
  obtain ⟨ls, hlen, hpassed, hlines⟩ := g.above_passed.exists_lines 0
  have hinline : '\n' ∉ g.lead ++ g.word ++ x :=
    fun hm => (List.mem_append.mp hm).elim g.newline_not_mem h.inline
  have ht : t = g.above ++ (g.lead ++ g.word ++ x ++ post) := by
    rw [h.text_eq, text]
    simp
  rw [ht, lines_eq_linesAt, hlines, Nat.zero_add]
  cases post with
  | nil =>
    rw [List.append_nil, linesAt_of_not_mem _ hinline]
    exact ⟨ls, x, [], rfl, by rw [hlen]; rfl, hpassed, .inl rfl⟩
  | cons c b =>
    cases h.ends c rfl
    obtain ⟨tail, htail, hx⟩ : ∃ tail, dropReturn (g.lead ++ g.word ++ x) = g.lead ++ g.word ++ tail ∧
        (tail = x ∨ x = tail ++ ['\r']) := by
      unfold dropReturn
      split
      · rename_i hlast
        rcases List.eq_nil_or_concat x with rfl | ⟨y, c, rfl⟩
        · obtain ⟨y, c, hconcat, hc⟩ := g.exists_word_concat
          exact absurd (by simpa using hlast) (getLast_ne_return y hconcat hc)
        · rw [List.concat_eq_append] at hlast ⊢
          rw [← List.append_assoc, List.getLast?_concat, Option.some.injEq] at hlast
          exact ⟨y, by rw [← List.append_assoc, List.dropLast_concat], .inr (by rw [hlast])⟩
      · exact ⟨x, rfl, .inl rfl⟩
    rw [linesAt_append _ hinline, htail]
    exact ⟨ls, tail, _, rfl, by rw [hlen]; rfl, hpassed, hx⟩

theorem Continues.exists_line (h : g.Continues x post t) :
    ∃ tail, t.line g.line = ⟨byteSize g.above, g.lead ++ g.word ++ tail⟩ ∧
      (tail = x ∨ x = tail ++ ['\r']) := by
  obtain ⟨ls, tail, below, hlines, hlen, -, hx⟩ := h.exists_lines
  refine ⟨tail, ?_, hx⟩
  have hget := line_eq_getElem t g.line
  rw [h.opens.clampLine_eq, hlines, show g.line - 1 = ls.length by omega,
    List.getElem?_append_right (Nat.le_refl _), Nat.sub_self, List.getElem?_cons_zero] at hget
  exact (Option.some.inj hget).symm

/-! ## Bare header lines -/

end Heading

/-- Whether the header line holds nothing but its first word. -/
def bareHeader (t : Text) : Bool :=
  ((t.lines.map Line.content).find? significant).any fun line => line.trim.firstWord == line.trim

namespace Heading

variable {g : Heading} {t x post : Text}

/-- A bare header line goes on with white space. -/
theorem Continues.blank_of_bare (h : g.Continues x post t) (hbare : bareHeader t = true) :
    ∀ c ∈ x, isWhiteSpace c = true := by
  obtain ⟨ls, tail, below, hlines, -, hpassed, hx⟩ := h.exists_lines
  have htail : FollowsWord tail := by
    rcases hx with rfl | rfl
    · exact h.follows
    · exact h.follows.of_isPrefix (List.prefix_append _ _)
  obtain ⟨hsig, -⟩ := header_line g.lead_blank g.word_header htail
  rw [← List.append_assoc] at hsig
  have hfind : (t.lines.map Line.content).find? significant = some (g.lead ++ g.word ++ tail) := by
    rw [hlines, List.map_append, List.map_cons, List.find?_append, List.find?_eq_none.mpr,
      Option.none_or, List.find?_cons_of_pos hsig]
    intro line hm
    obtain ⟨l, hl, rfl⟩ := List.mem_map.mp hm
    simp [hpassed l hl]
  obtain ⟨c, rest, hcons⟩ := List.exists_cons_of_ne_nil g.word_header.ne_nil
  have hc : isWhiteSpace c = false :=
    g.word_header.isWhiteSpace_eq_false (by rw [hcons]; exact List.mem_cons_self)
  have htrim : (g.lead ++ g.word ++ tail).trim = trimEnd (g.word ++ tail) := by
    rw [hcons, List.append_assoc, List.cons_append, trim_lead g.lead_blank hc]
  rw [bareHeader, hfind, Option.any_some, beq_iff_eq, htrim, firstWord_trimEnd,
    firstWord_append g.word_header htail] at hbare
  obtain ⟨gone, hgone, hwhite⟩ := exists_trimEnd (g.word ++ tail)
  rw [← hbare, List.append_cancel_left_eq] at hgone
  subst hgone
  rcases hx with rfl | rfl
  · exact hwhite
  · intro c hm
    rcases List.mem_append.mp hm with hm | hm
    · exact hwhite c hm
    · rw [List.mem_singleton.mp hm]
      decide

/-- Without the white space at its end, a bare header line ends with the header word. -/
theorem trimEnd_line (g : Heading) {tail : Text} (h : ∀ c ∈ tail, isWhiteSpace c = true) :
    (g.lead ++ g.word ++ tail).trimEnd = g.lead ++ g.word := by
  obtain ⟨y, c, hconcat, hc⟩ := g.exists_word_concat
  rw [trimEnd, dropEndWhile_append h, hconcat, dropEndWhile, List.reverse_append]
  simp [hc]

/-- What is inserted at the end of a bare header line goes right behind the header word. -/
theorem Continues.insert_at_end (h : g.Continues x post t) (hx : ∀ c ∈ x, isWhiteSpace c = true)
    (text : Text) (level : Level) :
    ∃ (e : Edit) (y z : Text), x = y ++ z ∧ e.newText = text ∧
      e.resolve t = ⟨byteSize g.text, byteSize (g.text ++ y)⟩ ∧
      ∀ (d : Diagnostic) (p : Proposal), d.line = g.line →
        insertText text .lineEnd level t d = some p → p.edits = [e] := by
  obtain ⟨tail, hline, htail⟩ := h.exists_line
  have hinit : tail <+: x := by
    rcases htail with rfl | rfl
    · exact List.prefix_rfl
    · exact List.prefix_append _ _
  have hwhite : ∀ c ∈ tail, isWhiteSpace c = true := fun c hc => hx c (hinit.subset hc)
  have hpoint : ∀ {d : Diagnostic} {c : Caret}, d.line = g.line → Caret.of? t d = some c →
      Anchor.lineEnd.point c + 1 = g.column ∧ c.line.drop (Anchor.lineEnd.point c) = tail := by
    intro d c hd hc
    obtain ⟨-, -, hcontent, -⟩ := caret_spec hc
    rw [hd, hline] at hcontent
    simp only [Anchor.point, ← hcontent, g.trimEnd_line hwhite]
    exact ⟨rfl, List.drop_left⟩
  have hstart := h.opens.offset_of_line hline (Nat.le_refl g.column)
  rw [Nat.sub_self, List.take_zero, byteSize_nil, Nat.add_zero] at hstart
  cases tail with
  | nil =>
    refine ⟨.insert ⟨g.line, g.column⟩ text, [], x, rfl, rfl, ?_, ?_⟩
    · simp only [Edit.resolve, Edit.insert, Edit.ending, Option.getD_none, hstart, Nat.min_self,
        Nat.max_self, List.append_nil]
    · intro d p hd hp
      obtain ⟨c, hc, ⟨hhead, -⟩ | ⟨-, rfl⟩⟩ := insertText_spec hp
      · rw [(hpoint hd hc).2] at hhead
        cases hhead
      · rw [(hpoint hd hc).1, hd]
        rfl
  | cons c more =>
    obtain ⟨rest, rfl⟩ := hinit
    have hstop := h.opens.offset_of_line hline (Nat.le_add_right g.column 1)
    rw [Nat.add_sub_cancel_left, List.take_succ_cons, List.take_zero, ← byteSize_append] at hstop
    refine ⟨.replaceSpan g.line g.column 1 text, [c], more ++ rest, rfl, rfl, ?_, ?_⟩
    · have hle : byteSize g.text ≤ byteSize (g.text ++ [c]) := by
        rw [byteSize_append]
        omega
      simp only [Edit.resolve, Edit.replaceSpan, Edit.replace, Edit.ending, Option.getD_some,
        hstart, hstop, Nat.min_eq_left hle, Nat.max_eq_right hle]
    · intro d p hd hp
      obtain ⟨c', hc, ⟨-, rfl⟩ | ⟨hhead, -⟩⟩ := insertText_spec hp
      · rw [(hpoint hd hc).1, hd]
        rfl
      · rw [(hpoint hd hc).2, List.head?_cons, Option.any_some, hx c (by simp)] at hhead
        cases hhead

/-! ## Edits below the header line -/

/-- The edit starts and ends below the header line. -/
def Lower (g : Heading) (t : Text) (e : Edit) : Prop :=
  g.line < t.clampLine e.start.line ∧ g.line < t.clampLine e.ending.line

theorem Continues.le_start (h : g.Continues x post t) {e : Edit} (he : g.Lower t e) :
    ∃ b, post = '\n' :: b ∧ byteSize (g.text ++ x ++ ['\n']) ≤ (e.resolve t).start := by
  obtain ⟨b, hb, hstart⟩ := h.le_offset he.1
  obtain ⟨-, -, hending⟩ := h.le_offset he.2
  refine ⟨b, hb, ?_⟩
  simp only [Edit.resolve]
  omega

/-- Edits below the header line leave it as it is. -/
theorem Continues.splice_lower (h : g.Continues x post t) {edits : List Edit}
    (he : ∀ e ∈ edits, g.Lower t e) : ∃ post', g.Continues x post' (t.splice edits) := by
  cases post with
  | nil =>
    have hnone : edits = [] := by
      refine List.eq_nil_iff_forall_not_mem.mpr fun e hm => ?_
      obtain ⟨b, hb, -⟩ := h.le_start (he e hm)
      cases hb
    rw [hnone, splice_nil]
    exact ⟨[], h⟩
  | cons c b =>
    cases h.ends c rfl
    have hbehind : ∀ e ∈ edits, byteSize (g.text ++ x ++ ['\n']) ≤ (e.resolve t).start := by
      intro e hm
      obtain ⟨-, -, hle⟩ := h.le_start (he e hm)
      exact hle
    have hsplice := splice_behind (t := t) (a := g.text ++ x ++ ['\n']) (b := b)
      (by rw [h.text_eq]; simp) hbehind
    refine ⟨'\n' :: t.spliceFrom (byteSize (g.text ++ x ++ ['\n'])) (inOrder (t.changes edits)),
      by rw [hsplice]; simp, h.inline, h.follows, by simp⟩

/-- An edit right behind the header word, with the others below the header line, changes what the
line goes on with. -/
theorem Continues.splice_first {y z : Text} (h : g.Continues (y ++ z) post t) {edits : List Edit}
    (hs : Separate (t.changes edits)) {e : Edit} (hm : e ∈ edits)
    (hrange : e.resolve t = ⟨byteSize g.text, byteSize (g.text ++ y)⟩)
    (hothers : ∀ e' ∈ edits, e' ≠ e → g.Lower t e') (hinline : '\n' ∉ e.newText)
    (hfollows : FollowsWord (e.newText ++ z)) :
    ∃ post', g.Continues (e.newText ++ z) post' (t.splice edits) := by
  have hz : '\n' ∉ z := fun hm => h.inline (List.mem_append_right _ hm)
  have hnew : '\n' ∉ e.newText ++ z := by simp [hinline, hz]
  cases post with
  | nil =>
    have hone : ∀ e' ∈ edits, e' ≠ e → False := by
      intro e' he' hne
      obtain ⟨b, hb, -⟩ := h.le_start (hothers e' he' hne)
      cases hb
    obtain ⟨rest, hrest, hsplice⟩ := Text.splice_first (a := g.text) (b := y) (k := z) (d := [])
      (by rw [h.text_eq]; simp) hs hm hrange fun e' he' hne => (hone e' he' hne).elim
    have hnone : rest = [] := by
      refine List.eq_nil_iff_forall_not_mem.mpr fun c hc => ?_
      obtain ⟨e', he', hne, -⟩ := hrest c hc
      exact hone e' he' hne
    refine ⟨t.spliceFrom (byteSize (g.text ++ y ++ z)) rest, ?_, hnew, hfollows, ?_⟩
    · rw [hsplice]
      simp
    · have hall : t = g.text ++ y ++ z := by rw [h.text_eq]; simp
      have hempty := slice_append (g.text ++ y ++ z) [] []
      simp only [List.append_nil, ← hall] at hempty
      rw [hnone, spliceFrom, ← hall, hempty]
      exact h.ends
  | cons c b =>
    cases h.ends c rfl
    have hsize : byteSize g.text < byteSize (g.text ++ (y ++ z) ++ ['\n']) := by
      simp only [byteSize_append]
      have : 0 < byteSize ['\n'] := by decide
      omega
    obtain ⟨rest, -, hsplice⟩ := Text.splice_first (a := g.text) (b := y) (k := z ++ ['\n']) (d := b)
      (by rw [h.text_eq]; simp) hs hm hrange (by
        intro e' he' hne
        obtain ⟨-, -, hle⟩ := h.le_start (hothers e' he' hne)
        refine ⟨Nat.lt_of_lt_of_le hsize hle, ?_⟩
        simpa only [List.append_assoc] using hle)
    refine ⟨'\n' :: t.spliceFrom (byteSize (g.text ++ y ++ (z ++ ['\n']))) rest, ?_, hnew, hfollows,
      by simp⟩
    rw [hsplice]
    simp

/-! ## Diagnostics below the header line -/

/-- A diagnostic that can be repaired below the header line only, unless it is about the missing
direction. -/
structure Sinks (g : Heading) (t : Text) (d : Diagnostic) : Prop where
  line : ∀ code ∈ d.code, code ∈ pointCodes ++ lineCodes → code ≠ Code.directionMissing →
    g.line < d.line ∧ d.line ≤ t.lineCount
  no_brace : d.code ≠ some Code.stateBlockMissingBrace

theorem Sinks.clampTo {d : Diagnostic} (h : g.Sinks t d) : g.Sinks t (d.clampTo t) where
  line := by
    intro code hcode hmem hne
    obtain ⟨h1, h2⟩ := h.line code hcode hmem hne
    have hclamp : (d.clampTo t).line = t.clampLine d.line := rfl
    rw [hclamp]
    unfold clampLine
    omega
  no_brace := h.no_brace

theorem sinks_of_line {d : Diagnostic} {code : String} (hc : d.code = some code)
    (hl : g.line < d.line ∧ d.line ≤ t.lineCount) (hb : code ≠ Code.stateBlockMissingBrace) :
    g.Sinks t d where
  line := fun _ _ _ _ => hl
  no_brace := by simpa [hc] using hb

theorem sinks_of_code {d : Diagnostic} {code : String} (hc : d.code = some code)
    (hm : code ∉ pointCodes ++ lineCodes ∨ code = Code.directionMissing)
    (hb : code ≠ Code.stateBlockMissingBrace) : g.Sinks t d where
  line := by
    intro code' hcode hmem hne
    rw [hc, Option.mem_some_iff] at hcode
    subst hcode
    rcases hm with hm | hm
    · exact absurd hmem hm
    · exact absurd hm hne
  no_brace := by simpa [hc] using hb

/-- Findings with codes that have no repair, or none on a line, sink. -/
theorem sinks_of_coded {codes : List String} {found : List Diagnostic} (h : Coded codes found)
    (hc : ∀ code ∈ codes, (code ∉ pointCodes ++ lineCodes ∨ code = Code.directionMissing) ∧
      code ≠ Code.stateBlockMissingBrace) : ∀ d ∈ found, g.Sinks t d := by
  intro d hd
  obtain ⟨code, hcode, heq⟩ := h d hd
  exact sinks_of_code heq (hc code hcode).1 (hc code hcode).2

/-- The built-in repairs of such diagnostics stay below the header line. -/
theorem Continues.lower_builtin (h : g.Continues x post t) (hw : g.HeadsDiagram) {d : Diagnostic}
    (hd : g.Sinks t d) {code : String} {s : Strategy} {p : Proposal} (hcode : d.code = some code)
    (hne : code ≠ Code.directionMissing) (hs : Registry.builtin.get? code = some s)
    (hp : s.propose t d = .ok (some p)) : ∀ e ∈ p.edits, g.Lower t e := by
  have hmem := Registry.mem_of_get? hs
  by_cases hblock : code = Code.blockMissingEnd
  · subst hblock
    have hstrategy : s = .closeBlock (.keywords endBlockOpeners) "end".toList := by
      have : Registry.builtin.get? Code.blockMissingEnd =
        some (.closeBlock (.keywords endBlockOpeners) "end".toList) := rfl
      rw [this, Option.some.injEq] at hs
      exact hs.symm
    rw [hstrategy] at hp
    obtain ⟨place, newText, rfl, hbelow⟩ :=
      h.opens.closeBlock_below (fun w hm => ⟨endBlockOpeners_isHeaderWord w hm, hw w hm⟩)
        (Except.ok.inj hp)
    intro e he
    rw [List.mem_singleton.mp he]
    exact ⟨hbelow, hbelow⟩
  · have hbrace : code ≠ Code.stateBlockMissingBrace := by
      rintro rfl
      exact hd.no_brace hcode
    -- every other repair stays on the line of its diagnostic
    have hother : code ∈ pointCodes ++ lineCodes ∧ ∀ opener closer, s ≠ .closeBlock opener closer := by
      simp only [List.mem_cons, List.not_mem_nil, or_false, Prod.mk.injEq] at hmem
      rcases hmem with ⟨rfl, rfl⟩ | ⟨rfl, rfl⟩ | ⟨rfl, rfl⟩ | ⟨rfl, rfl⟩ | ⟨rfl, rfl⟩ | ⟨rfl, rfl⟩ |
        ⟨rfl, rfl⟩ | ⟨rfl, rfl⟩ | ⟨rfl, rfl⟩ | ⟨rfl, rfl⟩ | ⟨rfl, rfl⟩ | ⟨rfl, rfl⟩ | ⟨rfl, rfl⟩ |
        ⟨rfl, rfl⟩ | ⟨rfl, rfl⟩
      case inr.inr.inr.inr.inr.inr.inr.inr.inl => exact absurd rfl hblock
      case inr.inr.inr.inr.inr.inr.inr.inr.inr.inl => exact absurd rfl hbrace
      all_goals exact ⟨by decide, by simp⟩
    obtain ⟨h1, h2⟩ := hd.line code hcode hother.1 hne
    have hclamp : t.clampLine d.line = d.line := by
      unfold clampLine
      omega
    intro e he
    obtain ⟨hstart, hending⟩ := Strategy.propose_line hother.2 hp e he
    exact ⟨by rw [hstart, hclamp]; exact h1, by rw [hending, hclamp]; exact h1⟩

/-! ## Passes -/

variable {level : Level} {edits : List Edit}

/-- A pass edits below the header line, but for adding a direction. -/
theorem Continues.mem_selectEdits (h : g.Continues x post t) (hw : g.HeadsDiagram)
    {ds : List Diagnostic} (hl : ∀ d ∈ ds, g.Sinks t d)
    (hselect : selectEdits Registry.builtin t ds level = .ok edits) {e : Edit} (he : e ∈ edits) :
    g.Lower t e ∨ ∃ d ∈ ds, d.code = some Code.directionMissing ∧
      ∃ p, insertText " TD".toList .lineEnd .all t d = some p ∧ e ∈ p.edits := by
  obtain ⟨p, ⟨d, hd, code, s, hcode, hs, hp⟩, hmem⟩ := DiagramLint.mem_selectEdits hselect he
  by_cases hdirection : code = Code.directionMissing
  · subst hdirection
    have hstrategy : Registry.builtin.get? Code.directionMissing =
      some (.insertText " TD".toList .lineEnd .all) := rfl
    rw [hstrategy, Option.some.injEq] at hs
    subst hs
    exact .inr ⟨d, hd, hcode, p, Except.ok.inj hp, hmem⟩
  · exact .inl (h.lower_builtin hw (hl d hd) hcode hdirection hs hp e hmem)

end Heading

end DiagramLint
