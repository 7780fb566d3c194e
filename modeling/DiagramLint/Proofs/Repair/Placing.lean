-- Edits at places that a lexer has reached. What stands before such a place
-- on its line and what stands from it on gives the caret of a diagnostic
-- made there, and the bytes that an edit of the line replaces.
import Mathlib.Data.List.Induction
import DiagramLint.Proofs.Edit.Splice
import DiagramLint.Proofs.Lexing.Tiling
import DiagramLint.Proofs.Repair.Proposals

namespace DiagramLint

open Text

/-! ## The line so far -/

/-- What some characters have of their last line. -/
def lineSoFar (before : Text) : Text := (before.reverse.takeWhile (· != '\n')).reverse

theorem lineSoFar_append (before : Text) {x : Text} (hx : '\n' ∉ x) :
    lineSoFar (before ++ x) = lineSoFar before ++ x := by
  unfold lineSoFar
  rw [List.reverse_append, List.takeWhile_append_of_pos, List.reverse_append, List.reverse_reverse]
  intro c hc
  rw [bne_iff_ne]
  rintro rfl
  exact hx (List.mem_reverse.mp hc)

theorem lineSoFar_newline (before : Text) : lineSoFar (before ++ ['\n']) = [] := by
  simp [lineSoFar]

theorem lineSoFar_isSuffix (before : Text) : lineSoFar before <:+ before := by
  unfold lineSoFar
  rw [← List.reverse_prefix, List.reverse_reverse]
  exact List.takeWhile_prefix _

theorem placeAfter_column (before : Text) :
    (placeAfter before).column = (lineSoFar before).length + 1 := by
  induction before using List.reverseRecOn with
  | nil => rfl
  | append_singleton before c ih =>
    rw [placeAfter, List.foldl_append]
    change (Position.advance (placeAfter before) c).column = _
    unfold Position.advance
    split
    · rename_i hc
      rw [hc, lineSoFar_newline]
      rfl
    · rename_i hc
      rw [lineSoFar_append before (by simpa using fun h => hc h.symm), List.length_append]
      exact congrArg (· + 1) ih

/-! ## The line of a place -/

/-- The line of the place behind some characters of a text: the characters before the place and
those from it on, and where a position among these is in the text. -/
structure LineAt (t before lead ahead : Text) : Prop where
  line?_eq : t.line? (placeAfter before).line = some (lead ++ ahead)
  column_eq : (placeAfter before).column = lead.length + 1
  lead_suffix : lead <:+ before
  newline_not_mem : '\n' ∉ ahead
  clamp_eq : ∀ k ≤ ahead.length, t.clamp ⟨(placeAfter before).line, lead.length + 1 + k⟩ =
    ⟨(placeAfter before).line, lead.length + 1 + k⟩
  offset_eq : ∀ k ≤ ahead.length, t.offset ⟨(placeAfter before).line, lead.length + 1 + k⟩ =
    byteSize (before ++ ahead.take k)

theorem Cursor.At.exists_lineAt {t before : Text} {s : Cursor} (h : s.At t before)
    (hne : s.restOfLine ≠ []) :
    ∃ lead ahead, LineAt t before lead ahead ∧ s.restOfLine <+: ahead ∧ ahead <+: s.rest := by
  obtain ⟨post, hpost⟩ := s.restOfLine_isPrefix
  obtain ⟨above, lead, tail, hbefore, -, htail, hcolumn, hline⟩ :=
    DiagramLint.exists_lineAt 0 before s.newline_not_mem_restOfLine hne s.getLast?_restOfLine post
  rw [hpost, ← h.text_eq, ← lines_eq_linesAt, Nat.zero_add] at hline
  have hnumber := placeAfter_line before
  have hclamp : t.clampLine (placeAfter before).line = (placeAfter before).line := by
    obtain ⟨hlt, -⟩ := List.getElem?_eq_some_iff.mp hline
    have : t.lineCount = t.lines.length := rfl
    unfold clampLine
    omega
  have hfound : t.line (placeAfter before).line =
      ⟨byteSize above, lead ++ (s.restOfLine ++ tail)⟩ := by
    have := line_eq_getElem t (placeAfter before).line
    rw [hclamp, hline] at this
    exact (Option.some.inj this).symm
  have hwidth : (t.line (placeAfter before).line).width =
      lead.length + (s.restOfLine ++ tail).length := by
    rw [hfound, Line.width, List.length_append]
  have hposition : ∀ k ≤ (s.restOfLine ++ tail).length,
      t.clamp ⟨(placeAfter before).line, lead.length + 1 + k⟩ =
        ⟨(placeAfter before).line, lead.length + 1 + k⟩ := by
    intro k hk
    simp only [Text.clamp, hclamp, hwidth, Position.mk.injEq, true_and]
    omega
  have hinline : '\n' ∉ s.restOfLine ++ tail := fun hm =>
    newline_not_mem_of_mem_linesAt (List.mem_of_getElem? hline) (List.mem_append_right _ hm)
  refine ⟨lead, s.restOfLine ++ tail, ⟨?_, hcolumn, ⟨above, hbefore.symm⟩, hinline, hposition, ?_⟩,
    List.prefix_append _ _, ?_⟩
  · rw [line?, if_neg (by omega), hline]
    rfl
  · intro k hk
    rw [Text.offset, hposition k hk]
    dsimp only
    rw [hfound, byteOfColumn, Nat.add_right_comm, Nat.add_sub_cancel, List.take_length_add_append,
      hbefore]
    simp only [byteSize_append]
    omega
  · rw [← hpost]
    exact (List.prefix_append_right_inj _).mpr htail

namespace LineAt

variable {t before lead ahead : Text} {k n : Nat}

theorem lead_eq (h : LineAt t before lead ahead) : lead = lineSoFar before := by
  have hlength : lead.length = (lineSoFar before).length := by
    have := h.column_eq
    rw [placeAfter_column] at this
    omega
  exact (List.suffix_of_suffix_length_le h.lead_suffix (lineSoFar_isSuffix before)
    (Nat.le_of_eq hlength)).eq_of_length hlength

/-- A diagnostic made at a place of the text stays there. -/
theorem clampTo (h : LineAt t before lead ahead) (hk : k ≤ ahead.length) {d : Diagnostic}
    (hd : d.place = ⟨max (placeAfter before).line 1, max (lead.length + 1 + k) 1⟩) :
    (d.clampTo t).line = (placeAfter before).line ∧ (d.clampTo t).column = lead.length + 1 + k := by
  have hplace : d.place = ⟨(placeAfter before).line, lead.length + 1 + k⟩ := by
    have := placeAfter_line before
    rw [hd, Nat.max_eq_left (by omega), Nat.max_eq_left (by omega)]
  have hclamp := h.clamp_eq k hk
  simp only [Diagnostic.clampTo, hplace, hclamp, and_self]

theorem caret (h : LineAt t before lead ahead) (hk : k ≤ ahead.length) {d : Diagnostic}
    (hl : d.line = (placeAfter before).line) (hc : d.column = lead.length + 1 + k) :
    Caret.of? t d = some ⟨lead ++ ahead, lead.length + k⟩ := by
  rw [Caret.of?, hl, h.line?_eq, hc, Option.map_some, List.length_append]
  congr 2
  omega

theorem resolve_replaceSpan (h : LineAt t before lead ahead) (hk : k + n ≤ ahead.length)
    (newText : Text) :
    (Edit.replaceSpan (placeAfter before).line (lead.length + k + 1) n newText).resolve t =
      ⟨byteSize (before ++ ahead.take k), byteSize (before ++ ahead.take (k + n))⟩ := by
  have hle : byteSize (before ++ ahead.take k) ≤ byteSize (before ++ ahead.take (k + n)) := by
    refine byteSize_le_of_isPrefix ((List.prefix_append_right_inj before).mpr ?_)
    exact List.take_prefix_take_left (Nat.le_add_right k n)
  have h1 := h.offset_eq k (by omega)
  have h2 := h.offset_eq (k + n) hk
  rw [Nat.add_right_comm] at h1
  rw [← Nat.add_assoc, Nat.add_right_comm lead.length 1 k] at h2
  simp only [Edit.resolve, Edit.replaceSpan, Edit.replace, Edit.ending, Option.getD_some, h1, h2,
    Nat.min_eq_left hle, Nat.max_eq_right hle]

theorem resolve_insert (h : LineAt t before lead ahead) (hk : k ≤ ahead.length) (newText : Text) :
    (Edit.insert ⟨(placeAfter before).line, lead.length + k + 1⟩ newText).resolve t =
      ⟨byteSize (before ++ ahead.take k), byteSize (before ++ ahead.take k)⟩ := by
  have h1 := h.offset_eq k hk
  rw [Nat.add_right_comm] at h1
  exact Text.resolve_insert h1 newText

/-- A text put at the caret of a finding takes the place of the white space there, if there is
some. -/
theorem insertText (h : LineAt t before lead ahead) {x tail text : Text} (hx : ahead = x ++ tail)
    {d : Diagnostic} {level : Level} {p : Proposal} {edit : Edit}
    (hd : d.place = ⟨max (placeAfter before).line 1, max (lead.length + 1 + x.length) 1⟩)
    (hp : insertText text .caret level t (d.clampTo t) = some p) (he : edit ∈ p.edits) :
    edit.newText = text ∧
      ((∃ c more, tail = c :: more ∧ isWhiteSpace c = true ∧
          edit.resolve t = ⟨byteSize (before ++ x), byteSize (before ++ (x ++ [c]))⟩) ∨
        edit.resolve t = ⟨byteSize (before ++ x), byteSize (before ++ x)⟩) := by
  subst hx
  have hk : x.length ≤ (x ++ tail).length := by simp
  obtain ⟨hline, hcolumn⟩ := h.clampTo hk hd
  obtain ⟨c, hcaret, hcases⟩ := insertText_spec hp
  rw [h.caret hk hline hcolumn, Option.some.injEq] at hcaret
  have hahead : c.line.drop c.index = tail := by
    rw [← hcaret]
    simp [List.drop_append]
  simp only [Anchor.point] at hcases
  rw [hahead] at hcases
  rcases hcases with ⟨hwhite, rfl⟩ | ⟨-, rfl⟩
  · obtain ⟨a, ha, hw⟩ := (Option.any_eq_true _ _).mp hwhite
    obtain ⟨more, rfl⟩ := List.head?_eq_some_iff.mp ha
    have hrange := h.resolve_replaceSpan (k := x.length) (n := 1) (by simp) text
    rw [List.take_left, List.take_length_add_append] at hrange
    rw [List.mem_singleton.mp he, hline, ← hcaret]
    exact ⟨rfl, .inl ⟨a, more, rfl, hw, hrange⟩⟩
  · have hrange := h.resolve_insert hk text
    rw [List.take_left] at hrange
    rw [List.mem_singleton.mp he, hline, ← hcaret]
    exact ⟨rfl, .inr hrange⟩

end LineAt

end DiagramLint
