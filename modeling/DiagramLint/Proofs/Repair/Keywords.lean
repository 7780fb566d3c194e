-- The repair of a misspelled keyword, for a word that stands apart from what
-- is around it: the edit starts where the word does, takes as many of its
-- characters as belong to words, and writes the keyword that the hint names.
import DiagramLint.Proofs.Repair.Placing
import DiagramLint.Proofs.Repair.Proposals
import DiagramLint.Proofs.Spelling

namespace DiagramLint

theorem isWordChar_of_isBlankChar {c : Char} (h : Cursor.isBlankChar c = true) :
    isWordChar c = false := by
  simp only [Cursor.isBlankChar, Bool.or_eq_true, beq_iff_eq] at h
  rcases h with (rfl | rfl) | rfl
  all_goals decide

theorem takeWhile_isPrefix {p : Char → Bool} {a b : Text} (h : a <+: b) :
    a.takeWhile p <+: b.takeWhile p := by
  obtain ⟨more, rfl⟩ := h
  rw [List.takeWhile_append]
  split
  · rename_i hall
    have ha : a.takeWhile p = a := (List.takeWhile_prefix p).eq_of_length hall
    rw [ha]
    exact List.prefix_append _ _
  · exact List.prefix_rfl

theorem getLast?_append_blanks {before blanks : Text}
    (hbefore : ∀ c ∈ before.getLast?, isWordChar c = false)
    (hblanks : ∀ c ∈ blanks, Cursor.isBlankChar c = true) :
    ∀ c ∈ (before ++ blanks).getLast?, isWordChar c = false := by
  intro c hc
  rcases List.eq_nil_or_concat blanks with hnil | ⟨init, last, hlast⟩
  · rw [hnil, List.append_nil] at hc
    exact hbefore c hc
  · rw [hlast, List.concat_eq_append, ← List.append_assoc, List.getLast?_concat] at hc
    rw [← Option.some.inj hc]
    exact isWordChar_of_isBlankChar (hblanks last (by rw [hlast]; simp))

/-- A word read at a place of a text stands apart: no character of a word comes right before it on
its line, and the line goes on from there with no more of a word than it has. -/
structure StandsApart (t : Text) (place : Position) (word before lead ahead : Text) : Prop where
  line_at : LineAt t before lead ahead
  place_eq : place = placeAfter before
  word_isPrefix : word <+: ahead
  word_length : 0 < word.length
  lead_ends : lead.reverse.takeWhile isWordChar = []
  ahead_ends : ahead.takeWhile isWordChar = word.takeWhile isWordChar

/-- A word at a cursor stands apart when the characters around it do not go on with it. -/
theorem Cursor.At.exists_standsApart {t before : Text} {s : Cursor} (hat : s.At t before) {n : Nat}
    (hpos : 0 < n) (hle : n ≤ s.restOfLine.length)
    (hbefore : ∀ c ∈ before.getLast?, isWordChar c = false)
    (hbehind : s.rest.takeWhile isWordChar = (s.rest.take n).takeWhile isWordChar) :
    ∃ lead ahead, StandsApart t s.place (s.rest.take n) before lead ahead := by
  have hne : s.restOfLine ≠ [] := List.ne_nil_of_length_pos (by omega)
  obtain ⟨lead, ahead, hline, hrest, hahead⟩ := hat.exists_lineAt hne
  have hword : s.rest.take n <+: ahead := by
    refine List.prefix_of_prefix_length_le (List.take_prefix _ _) hahead ?_
    have := hrest.length_le
    rw [List.length_take]
    omega
  have hlength : 0 < (s.rest.take n).length := by
    have := s.restOfLine_isPrefix.length_le
    rw [List.length_take]
    omega
  refine ⟨lead, ahead, hline, hat.place_eq, hword, hlength, ?_, ?_⟩
  · rcases List.eq_nil_or_concat lead with rfl | ⟨init, c, rfl⟩
    · rfl
    · obtain ⟨above, habove⟩ := hline.lead_suffix
      have hlast : before.getLast? = some c := by
        rw [← habove, List.concat_eq_append, ← List.append_assoc, List.getLast?_concat]
      simp [List.concat_eq_append, hbefore c hlast]
  · have hle := (takeWhile_isPrefix hahead (p := isWordChar)).length_le
    rw [hbehind] at hle
    exact ((takeWhile_isPrefix hword).eq_of_length_le hle).symm

/-- A word stands apart behind whatever leads to its place. -/
theorem StandsApart.move {t before before' lead lead' ahead ahead' word : Text} {place : Position}
    (h : StandsApart t place word before lead ahead) (hline : LineAt t before' lead' ahead')
    (hplace : placeAfter before' = placeAfter before) :
    StandsApart t place word before' lead' ahead' := by
  have hsame := h.line_at.line?_eq
  have hcolumn := h.line_at.column_eq
  rw [← hplace, hline.line?_eq, Option.some.injEq] at hsame
  rw [← hplace, hline.column_eq] at hcolumn
  obtain ⟨rfl, rfl⟩ := List.append_inj hsame (by omega)
  exact ⟨hline, h.place_eq.trans hplace.symm, h.word_isPrefix, h.word_length, h.lead_ends,
    h.ahead_ends⟩

/-- The repair of a diagnostic about a word rewrites the first `taken` characters of the word into
the keyword that the hint suggests. -/
structure Rewrites (d : Diagnostic) (p : Proposal) (word suggestion : String) (taken : Nat) :
    Prop where
  span : d.spanLength = word.length
  hint : d.hint = some (keywordHint suggestion)
  proposal : p = .safe (.replaceSpan d.line d.column taken suggestion.toList)
  whole : taken = word.length ↔ word.toList.all isWordChar = true

theorem length_takeWhile_eq_iff (p : Char → Bool) (word : Text) :
    (word.takeWhile p).length = word.length ↔ word.all p = true := by
  rw [List.all_eq_true, ← List.takeWhile_eq_self_iff]
  exact ⟨(List.takeWhile_prefix p).eq_of_length, congrArg List.length⟩

/-- What the repair makes of a diagnostic at a word that stands apart, with a hint. -/
theorem StandsApart.rewrites {t before lead ahead : Text} {place : Position} {word : String}
    (h : StandsApart t place word.toList before lead ahead) {d : Diagnostic}
    (hplace : d.place = ⟨max place.line 1, max place.column 1⟩)
    (hlength : d.length = some (max word.length 1)) {suggestion : String}
    (hhint : d.hint = some (keywordHint suggestion))
    (hnamed : hintedKeyword? (keywordHint suggestion) = some suggestion)
    {keywords : List String} {p : Proposal}
    (hp : replaceKeyword keywords t (d.clampTo t) = some p) :
    (d.clampTo t).place = place ∧
      Rewrites (d.clampTo t) p word suggestion (word.toList.takeWhile isWordChar).length := by
  have hcolumn := h.line_at.column_eq
  rw [← h.place_eq] at hcolumn
  have hmade : d.place = ⟨max (placeAfter before).line 1, max (lead.length + 1 + 0) 1⟩ := by
    rw [hplace, ← h.place_eq, hcolumn]
  obtain ⟨hline, hcol⟩ := h.line_at.clampTo (Nat.zero_le _) hmade
  have hbind : (d.clampTo t).hint.bind hintedKeyword? = some suggestion := by
    change d.hint.bind hintedKeyword? = _
    rw [hhint]
    exact hnamed
  obtain ⟨c, hc, hproposal⟩ := replaceKeyword_hinted hp hbind
  rw [h.line_at.caret (Nat.zero_le _) hline hcol, Option.some.injEq] at hc
  have hbefore : c.countBefore isWordChar = 0 := by
    rw [← hc, Caret.countBefore, Caret.before, Nat.add_zero, List.take_left, h.lead_ends]
    rfl
  have hahead : c.countAhead isWordChar = (word.toList.takeWhile isWordChar).length := by
    rw [← hc, Caret.countAhead, Caret.ahead, Nat.add_zero, List.drop_left, h.ahead_ends]
  refine ⟨?_, ?_, hhint, ?_, ?_⟩
  · rw [Diagnostic.place, hline, hcol, Nat.add_zero, ← hcolumn, h.place_eq]
  · have hpos := h.word_length
    rw [String.length_toList] at hpos
    change max (d.length.getD 1) 1 = word.length
    rw [hlength, Option.getD_some]
    omega
  · rw [hproposal, hbefore, hahead, ← hc, hcol]
    simp only [Nat.add_zero, Nat.sub_zero, Nat.add_sub_cancel_left]
  · rw [← String.length_toList]
    exact length_takeWhile_eq_iff isWordChar word.toList

/-- A repair that is made takes some character of the word. -/
theorem StandsApart.takes {t before lead ahead word : Text} {place : Position}
    (h : StandsApart t place word before lead ahead) {d : Diagnostic}
    (hplace : d.place = ⟨max place.line 1, max place.column 1⟩) {keywords : List String}
    {p : Proposal} (hp : replaceKeyword keywords t (d.clampTo t) = some p) :
    0 < (word.takeWhile isWordChar).length := by
  have hcolumn := h.line_at.column_eq
  have hmade : d.place = ⟨max (placeAfter before).line 1, max (lead.length + 1 + 0) 1⟩ := by
    rw [hplace, h.place_eq, hcolumn]
  obtain ⟨hline, hcol⟩ := h.line_at.clampTo (Nat.zero_le _) hmade
  obtain ⟨c, hc, hne⟩ := replaceKeyword_takes hp
  rw [h.line_at.caret (Nat.zero_le _) hline hcol, Option.some.injEq] at hc
  have hahead : c.countAhead isWordChar = (word.takeWhile isWordChar).length := by
    rw [← hc, Caret.countAhead, Caret.ahead, Nat.add_zero, List.drop_left, h.ahead_ends]
  have hbefore : c.countBefore isWordChar = 0 := by
    rw [← hc, Caret.countBefore, Caret.before, Nat.add_zero, List.take_left, h.lead_ends]
    rfl
  omega

end DiagramLint
