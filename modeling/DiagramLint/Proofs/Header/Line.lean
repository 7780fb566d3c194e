-- The header line among the lines of a text, and the places behind the
-- header word. A place counts as past the heading when another character
-- stands between it and the word, and moving it into the text keeps it so.
import DiagramLint.Proofs.Header.Heading
import DiagramLint.Proofs.Text.Places

namespace DiagramLint

open Text

/-! ## The lines of a heading -/

/-- Lines that detection passes over are lines of any text they start. -/
theorem Passed.exists_lines {above : Text} (h : Passed above) (start : Nat) :
    ∃ ls : List Line, ls.length = above.count '\n' ∧ (∀ l ∈ ls, significant l.content = false) ∧
      ∀ rest, linesAt start (above ++ rest) = ls ++ linesAt (start + byteSize above) rest := by
  induction h generalizing start with
  | nil => exact ⟨[], rfl, by simp, fun rest => rfl⟩
  | line a b ha hs _ ih =>
    obtain ⟨ls, hlen, hpassed, hlines⟩ := ih (start + byteSize a + 1)
    refine ⟨⟨start, dropReturn a⟩ :: ls, ?_, ?_, ?_⟩
    · rw [List.length_cons, hlen, List.count_append, List.count_eq_zero_of_not_mem ha,
        List.count_cons_self]
      omega
    · intro l hl
      rcases List.mem_cons.mp hl with rfl | hl
      · rw [significant_dropReturn]
        exact hs
      · exact hpassed l hl
    · intro rest
      have hsize : start + byteSize (a ++ '\n' :: b) = start + byteSize a + 1 + byteSize b := by
        rw [byteSize_append, byteSize_cons]
        have : '\n'.utf8Size = 1 := rfl
        omega
      rw [List.append_assoc, List.cons_append, linesAt_append start ha, hlines, hsize]
      rfl

theorem Passed.foldl_advance {above : Text} (h : Passed above) (n : Nat) :
    above.foldl Position.advance ⟨n, 1⟩ = ⟨n + above.count '\n', 1⟩ := by
  induction h generalizing n with
  | nil => rfl
  | line a b ha _ _ ih =>
    rw [List.foldl_append, foldl_advance_of_not_mem _ ha, List.foldl_cons, Position.advance,
      if_pos rfl, ih, List.count_append, List.count_eq_zero_of_not_mem ha, List.count_cons_self]
    simp only [Position.mk.injEq, and_true]
    omega

theorem FollowsWord.of_isPrefix {a b : Text} (h : FollowsWord b) (ha : a <+: b) :
    FollowsWord a := by
  obtain ⟨rest, rfl⟩ := ha
  intro c hc
  cases a with
  | nil => cases hc
  | cons d more => exact h c hc

namespace Heading

variable {g : Heading} {t : Text}

/-- The number of the header line. -/
def line (g : Heading) : Nat := g.above.count '\n' + 1

/-- The column right behind the header word. -/
def column (g : Heading) : Nat := (g.lead ++ g.word).length + 1

theorem newline_not_mem (g : Heading) : '\n' ∉ g.lead ++ g.word := by
  intro hm
  rcases List.mem_append.mp hm with hm | hm
  · exact g.lead_line hm
  · exact absurd (g.word_header.isWhiteSpace_eq_false hm) (by decide)

theorem getLast_ne_return {x : Text} (y : Text) {c : Char} (h : x = y ++ [c])
    (hc : isWhiteSpace c = false) : x.getLast? ≠ some '\r' := by
  rw [h, List.getLast?_concat]
  intro he
  rw [Option.some.inj he] at hc
  exact absurd hc (by decide)

theorem exists_word_concat (g : Heading) :
    ∃ y c, g.lead ++ g.word = y ++ [c] ∧ isWhiteSpace c = false := by
  have hne := g.word_header.ne_nil
  refine ⟨g.lead ++ g.word.dropLast, g.word.getLast hne, ?_, ?_⟩
  · rw [List.append_assoc, List.dropLast_append_getLast]
  · exact g.word_header.isWhiteSpace_eq_false (List.getLast_mem hne)

/-- The lines of a text that opens with a heading: those passed over, the header line, and the
others. The header line holds what the text has up to a character that is not white space. -/
theorem Opens.exists_lines (h : g.Opens t) :
    ∃ ls tail below, t.lines = ls ++ ⟨byteSize g.above, g.lead ++ g.word ++ tail⟩ :: below ∧
      ls.length + 1 = g.line ∧ (∀ l ∈ ls, significant l.content = false) ∧ FollowsWord tail ∧
      ∀ x rest, '\n' ∉ x → x.getLast? ≠ some '\r' → t = g.above ++ (x ++ rest) →
        x <+: g.lead ++ g.word ++ tail := by
  obtain ⟨post, rfl, hpost⟩ := h
  obtain ⟨ls, hlen, hpassed, hlines⟩ := g.above_passed.exists_lines 0
  obtain ⟨y, c, hconcat, hc⟩ := g.exists_word_concat
  obtain ⟨tail, below, hfirst, htail⟩ := exists_first_line (byteSize g.above)
    g.newline_not_mem (getLast_ne_return y hconcat hc) post
  refine ⟨ls, tail, below, ?_, by rw [hlen]; rfl, hpassed, hpost.of_isPrefix htail, ?_⟩
  · rw [lines_eq_linesAt, text, List.append_assoc, hlines, Nat.zero_add, hfirst]
  · intro x rest hx hr heq
    obtain ⟨tail', below', hfirst', -⟩ := exists_first_line (byteSize g.above) hx hr rest
    rw [text, List.append_assoc] at heq
    rw [List.append_cancel_left heq, hfirst', List.cons.injEq, Line.mk.injEq] at hfirst
    exact ⟨tail', hfirst.1.2⟩

theorem line_pos (g : Heading) : 0 < g.line := Nat.succ_pos _

theorem Opens.line_le (h : g.Opens t) : g.line ≤ t.lineCount := by
  obtain ⟨ls, tail, below, hlines, hlen, -⟩ := h.exists_lines
  rw [lineCount, hlines, List.length_append, List.length_cons]
  omega

theorem Opens.clampLine_eq (h : g.Opens t) : t.clampLine g.line = g.line := by
  have h1 := g.line_pos
  have h2 := h.line_le
  unfold clampLine
  omega

/-- The header line. -/
theorem Opens.exists_line (h : g.Opens t) :
    ∃ tail, t.line g.line = ⟨byteSize g.above, g.lead ++ g.word ++ tail⟩ ∧ FollowsWord tail ∧
      ∀ x rest, '\n' ∉ x → x.getLast? ≠ some '\r' → t = g.above ++ (x ++ rest) →
        x <+: g.lead ++ g.word ++ tail := by
  obtain ⟨ls, tail, below, hlines, hlen, -, htail, hstart⟩ := h.exists_lines
  refine ⟨tail, ?_, htail, hstart⟩
  have hget := line_eq_getElem t g.line
  rw [h.clampLine_eq, hlines, show g.line - 1 = ls.length by omega,
    List.getElem?_append_right (Nat.le_refl _), Nat.sub_self, List.getElem?_cons_zero] at hget
  exact (Option.some.inj hget).symm

/-! ## Places past the heading -/

/-- A place of the text behind the header word and at least one more character. -/
def Past (g : Heading) (t : Text) (p : Position) : Prop :=
  g.line < p.line ∧ p.line ≤ t.lineCount ∨
    p.line = g.line ∧ g.column < p.column ∧ g.column ≤ (t.line g.line).width

theorem Past.line_le {p : Position} (h : g.Past t p) : g.line ≤ p.line := by
  rcases h with h | h
  · exact Nat.le_of_lt h.1
  · exact Nat.le_of_eq h.1.symm

theorem placeAfter_lead (g : Heading) :
    placeAfter (g.above ++ g.lead) = ⟨g.line, g.lead.length + 1⟩ := by
  rw [placeAfter, List.foldl_append, g.above_passed.foldl_advance,
    foldl_advance_of_not_mem _ g.lead_line]
  simp only [line, Position.mk.injEq]
  omega

theorem placeAfter_text (g : Heading) : placeAfter g.text = ⟨g.line, g.column⟩ := by
  rw [placeAfter, text, List.foldl_append, g.above_passed.foldl_advance,
    foldl_advance_of_not_mem _ g.newline_not_mem]
  simp only [line, column, Position.mk.injEq]
  omega

theorem line_le_placeAfter (g : Heading) (x : Text) :
    g.line ≤ (placeAfter (g.above ++ x)).line := by
  rw [placeAfter, foldl_advance_line, List.count_append]
  simp only [line]
  omega

/-- A character that is not white space, with another one between it and the header word, stands
past the heading. -/
theorem Opens.past_placeAfter (h : g.Opens t) {mid more : Text} {c : Char}
    (ht : t = g.text ++ (mid ++ c :: more)) (hmid : mid ≠ []) (hc : isWhiteSpace c = false) :
    g.Past t (placeAfter (g.text ++ mid)) := by
  have hfold : placeAfter (g.text ++ mid) = mid.foldl Position.advance ⟨g.line, g.column⟩ := by
    rw [← g.placeAfter_text, placeAfter, List.foldl_append]
    rfl
  by_cases hnl : '\n' ∈ mid
  · left
    refine ⟨?_, placeAfter_line_le ⟨c :: more, by rw [ht, List.append_assoc]⟩⟩
    rw [hfold, foldl_advance_line]
    have := List.count_pos_iff.mpr hnl
    simp only
    omega
  · right
    rw [hfold, foldl_advance_of_not_mem _ hnl]
    have hpos := List.length_pos_iff.mpr hmid
    refine ⟨rfl, by simp only; omega, ?_⟩
    -- the line goes on at least to the character itself
    obtain ⟨tail, hline, -, hstart⟩ := h.exists_line
    have hx : '\n' ∉ g.lead ++ g.word ++ mid ++ [c] := by
      have hcn : '\n' ≠ c := by
        rintro rfl
        exact absurd hc (by decide)
      have := g.newline_not_mem
      simp_all
    have hpre := hstart (g.lead ++ g.word ++ mid ++ [c]) more hx (getLast_ne_return _ rfl hc)
      (by rw [ht, text]; simp)
    have hlen := hpre.length_le
    rw [hline, Line.width, column]
    simp only [List.length_append, List.length_cons, List.length_nil] at hlen ⊢
    omega

/-! ## Places moved into the text -/

theorem Past.clamp {p : Position} (hg : g.Opens t) (h : g.Past t p) : g.Past t (t.clamp p) := by
  have h1 := hg.line_le
  have h0 := g.line_pos
  rcases h with ⟨h2, h3⟩ | ⟨h2, h3, h4⟩
  · have hclamp : t.clampLine p.line = p.line := by
      unfold clampLine
      omega
    left
    simp only [Text.clamp, hclamp]
    exact ⟨h2, h3⟩
  · right
    simp only [Text.clamp, h2, hg.clampLine_eq]
    refine ⟨trivial, ?_, h4⟩
    omega

theorem Opens.line_le_clamp (hg : g.Opens t) {p : Position} (h : g.line ≤ p.line) :
    g.line ≤ (t.clamp p).line := by
  have h1 := hg.line_le
  have h0 := g.line_pos
  simp only [Text.clamp, clampLine]
  omega

end Heading

end DiagramLint
