-- What each repair strategy can propose, and when it has an answer at all.
-- Every strategy that does not decline proposes one edit, and its place is read
-- off the line that the diagnostic points at.
import DiagramLint.Proofs.Repair.Entities
import DiagramLint.Proofs.Spelling

namespace DiagramLint

/-! ## The characters spanned -/

namespace Caret

/-- The place behind what a diagnostic spans is a number of 64 bits, or in the line. -/
def Fits (c : Caret) (d : Diagnostic) : Prop :=
  c.index + d.spanLength ≤ maxWord ∨ c.index + d.spanLength ≤ c.line.length + 1

/-- The characters of the line that a diagnostic spans. -/
def spanned (c : Caret) (d : Diagnostic) : Text := c.ahead.take d.spanLength

theorem span_eq_ok_iff {c : Caret} {d : Diagnostic} {span : Text} :
    c.span d = .ok span ↔ c.Fits d ∧ span = c.spanned d := by
  have hspanned : (c.line.take (c.index + d.spanLength)).drop c.index = c.spanned d := by
    rw [List.drop_take, Nat.add_sub_cancel_left]
    rfl
  have hfits : c.index + d.spanLength ≤ max maxWord (c.line.length + 1) ↔ c.Fits d := by
    unfold Fits
    omega
  unfold Caret.span wordAdd
  rw [map_eq_ok_iff]
  split
  · rename_i hle
    simp only [Except.ok.injEq, exists_eq_left', hspanned, hfits.mp hle, true_and]
    exact eq_comm
  · rename_i hlt
    refine iff_of_false (fun ⟨_, h, _⟩ => nomatch h) fun h => hlt (hfits.mpr h.1)

end Caret

/-! ## One inversion for each strategy -/

theorem replaceToken_eq_some {replacement t : Text} {d : Diagnostic} {p : Proposal}
    (h : replaceToken replacement t d = .ok (some p)) :
    ∃ c, Caret.of? t d = some c ∧ (c.spanned d ≠ [] ∧ c.spanned d ≠ replacement) ∧
      p = .safe (.replaceSpan d.line (c.index + 1) (c.spanned d).length replacement) := by
  unfold replaceToken at h
  split at h
  · cases h
  · rename_i c hc
    obtain ⟨span, hspan, h⟩ := map_eq_ok_iff.mp h
    obtain ⟨-, rfl⟩ := Caret.span_eq_ok_iff.mp hspan
    refine ⟨c, hc, ?_⟩
    split at h
    · cases h
    · rename_i hspan
      simp only [Bool.or_eq_true, List.isEmpty_iff, beq_iff_eq, not_or] at hspan
      exact ⟨hspan, (Option.some.inj h).symm⟩

/-- A word of a caret's line becomes another word: a keyword, or what the hint names. -/
theorem replaceKeyword_spec {keywords : List String} {t : Text} {d : Diagnostic} {p : Proposal}
    (h : replaceKeyword keywords t d = some p) :
    ∃ c keyword, Caret.of? t d = some c ∧
      keyword.toList ≠ (c.line.drop (c.index - c.countBefore isWordChar)).take
        (c.index + c.countAhead isWordChar - (c.index - c.countBefore isWordChar)) ∧
      (keyword ∈ keywords ∨ d.hint.bind hintedKeyword? = some keyword) ∧
      p = .safe (.replaceSpan d.line (c.index - c.countBefore isWordChar + 1)
        (c.index + c.countAhead isWordChar - (c.index - c.countBefore isWordChar))
        keyword.toList) := by
  obtain ⟨c, hc, h⟩ := Option.bind_eq_some_iff.mp h
  dsimp only at h
  split at h
  · cases h
  · split at h
    · rename_i keyword hint
      split at h
      · cases h
      · rename_i hne
        refine ⟨c, keyword, hc, fun heq => hne ?_, .inr hint, (Option.some.inj h).symm⟩
        rw [← heq, String.ofList_toList]
    · obtain ⟨keyword, hnearest, h⟩ := Option.bind_eq_some_iff.mp h
      refine ⟨c, keyword, hc, fun heq => ?_, .inl (nearestKeyword_mem hnearest),
        (Option.some.inj h).symm⟩
      rw [← heq, String.ofList_toList] at hnearest
      exact nearestKeyword_ne hnearest rfl

theorem replaceKeyword_eq_some {keywords : List String} {t : Text} {d : Diagnostic} {p : Proposal}
    (h : replaceKeyword keywords t d = some p) :
    ∃ c newText, Caret.of? t d = some c ∧
      p = .safe (.replaceSpan d.line (c.index - c.countBefore isWordChar + 1)
        (c.index + c.countAhead isWordChar - (c.index - c.countBefore isWordChar)) newText) := by
  obtain ⟨c, keyword, hc, -, -, hp⟩ := replaceKeyword_spec h
  exact ⟨c, keyword.toList, hc, hp⟩

/-- A word of no characters is not replaced. -/
theorem replaceKeyword_takes {keywords : List String} {t : Text} {d : Diagnostic} {p : Proposal}
    (h : replaceKeyword keywords t d = some p) :
    ∃ c, Caret.of? t d = some c ∧
      c.index - c.countBefore isWordChar ≠ c.index + c.countAhead isWordChar := by
  obtain ⟨c, hc, h⟩ := Option.bind_eq_some_iff.mp h
  refine ⟨c, hc, ?_⟩
  dsimp only at h
  split at h
  · cases h
  · assumption

/-- A hint that names a keyword decides what the word becomes. -/
theorem replaceKeyword_hinted {keywords : List String} {keyword : String} {t : Text}
    {d : Diagnostic} {p : Proposal} (h : replaceKeyword keywords t d = some p)
    (hint : d.hint.bind hintedKeyword? = some keyword) :
    ∃ c, Caret.of? t d = some c ∧
      p = .safe (.replaceSpan d.line (c.index - c.countBefore isWordChar + 1)
        (c.index + c.countAhead isWordChar - (c.index - c.countBefore isWordChar))
        keyword.toList) := by
  obtain ⟨c, hc, h⟩ := Option.bind_eq_some_iff.mp h
  dsimp only at h
  rw [hint] at h
  split at h
  · cases h
  · dsimp only at h
    split at h
    · cases h
    · exact ⟨c, hc, (Option.some.inj h).symm⟩

/-- A label is encoded as a whole, or else the raw form right at the caret. -/
theorem encodeLabel_spec {rules : List EncodeRule} {delimiters : List Delimiter} {t : Text}
    {d : Diagnostic} {p : Proposal} (h : encodeLabel rules delimiters t d = .ok (some p)) :
    ∃ c, Caret.of? t d = some c ∧
      ((∃ span encoded, enclosingSpan? c.line c.index delimiters = some span ∧
          encodeEntities rules (span.inside c.line).2 = .ok encoded ∧
          encoded ≠ (span.inside c.line).2 ∧
          p.edits = [.replaceSpan d.line ((span.inside c.line).1 + 1)
            (span.inside c.line).2.length encoded]) ∨
        enclosingSpan? c.line c.index delimiters = none ∧
          ∃ rule ∈ rules, (rule.raw.isPrefixOf c.ahead ∧ ¬ rule.encoded.isPrefixOf c.ahead) ∧
            p.edits = [.replaceSpan d.line (c.index + 1) rule.raw.length rule.encoded]) := by
  unfold encodeLabel at h
  split at h
  · cases h
  rename_i c hc
  refine ⟨c, hc, ?_⟩
  split at h
  · rename_i span hspan
    left
    refine ⟨span, ?_⟩
    generalize span.inside c.line = inside at h ⊢
    obtain ⟨encoded, hencoded, h⟩ := map_eq_ok_iff.mp h
    refine ⟨encoded, hspan, hencoded, ?_⟩
    split at h
    · cases h
    · rename_i hne
      exact ⟨hne, by rw [← Option.some.inj h]⟩
  · rename_i hnone
    right
    refine ⟨hnone, ?_⟩
    obtain ⟨rule, hrule, h⟩ := Option.map_eq_some_iff.mp (Except.ok.inj h)
    have hfound := List.find?_some hrule
    simp only [Bool.and_eq_true, Bool.not_eq_true', ← Bool.not_eq_true] at hfound
    exact ⟨rule, List.mem_of_find?_eq_some hrule, hfound, by rw [← h]; rfl⟩

theorem encodeLabel_eq_some {rules : List EncodeRule} {delimiters : List Delimiter} {t : Text}
    {d : Diagnostic} {p : Proposal} (h : encodeLabel rules delimiters t d = .ok (some p)) :
    ∃ c, Caret.of? t d = some c ∧
      ((∃ span newText, enclosingSpan? c.line c.index delimiters = some span ∧
          p.edits = [.replaceSpan d.line ((span.inside c.line).1 + 1)
            (span.inside c.line).2.length newText]) ∨
        ∃ rule ∈ rules, rule.raw.isPrefixOf c.ahead ∧
          p.edits = [.replaceSpan d.line (c.index + 1) rule.raw.length rule.encoded]) := by
  obtain ⟨c, hc, ⟨span, _, hspan, -, -, he⟩ | ⟨-, rule, hrule, hraw, he⟩⟩ := encodeLabel_spec h
  · exact ⟨c, hc, .inl ⟨span, _, hspan, he⟩⟩
  · exact ⟨c, hc, .inr ⟨rule, hrule, hraw.1, he⟩⟩

/-- A bracket is repaired only behind an opening bracket that nothing closes. -/
theorem repairBracket_spec {shapes : List Shape} {t : Text} {d : Diagnostic} {p : Proposal}
    (h : repairBracket shapes t d = .ok (some p)) :
    ∃ c openEnd shape, Caret.of? t d = some c ∧
      Shape.unmatched? shapes c = some (openEnd, shape) ∧
      (c.spanned d ≠ shape.closer ∧
          p = .safe (.replaceSpan d.line (c.index + 1) (c.spanned d).length shape.closer) ∨
        p = .atLevel .all (.insert
          ⟨d.line, min (max openEnd (c.index - c.countBefore isWhiteSpace)) c.index + 1⟩
          shape.closer)) := by
  unfold repairBracket at h
  split at h
  · cases h
  rename_i c hc
  split at h
  · cases h
  rename_i openEnd shape hu
  refine ⟨c, openEnd, shape, hc, hu, ?_⟩
  obtain ⟨span, hspan, h⟩ := map_eq_ok_iff.mp h
  obtain ⟨-, rfl⟩ := Caret.span_eq_ok_iff.mp hspan
  split at h
  · split at h
    · cases h
    · rename_i hne
      exact Or.inl ⟨hne, (Option.some.inj h).symm⟩
  · exact Or.inr (Option.some.inj h).symm

theorem repairBracket_eq_some {shapes : List Shape} {t : Text} {d : Diagnostic} {p : Proposal}
    (h : repairBracket shapes t d = .ok (some p)) :
    ∃ c openEnd shape, Caret.of? t d = some c ∧
      Shape.unmatched? shapes c = some (openEnd, shape) ∧
      (p = .safe (.replaceSpan d.line (c.index + 1) (c.spanned d).length shape.closer) ∨
        p = .atLevel .all (.insert
          ⟨d.line, min (max openEnd (c.index - c.countBefore isWhiteSpace)) c.index + 1⟩
          shape.closer)) := by
  obtain ⟨c, openEnd, shape, hc, hu, ⟨-, hp⟩ | hp⟩ := repairBracket_spec h
  · exact ⟨c, openEnd, shape, hc, hu, .inl hp⟩
  · exact ⟨c, openEnd, shape, hc, hu, .inr hp⟩

/-- The end of a block goes on a line behind the one that opens it, or on the last line. -/
theorem closeBlock_eq_some {opener : BlockOpener} {closer t : Text} {d : Diagnostic} {p : Proposal}
    (h : closeBlock opener closer t d = some p) :
    ∃ number place newText,
      openLine? opener closer 0
        (((t.lines.map Line.content).take (t.clampLine d.line)).map Text.trim).reverse =
          some number ∧
      p = .atLevel .all (.insert place newText) ∧
      (number < place.line ∨ place.line = t.lineCount) := by
  obtain ⟨number, hn, h⟩ := Option.bind_eq_some_iff.mp h
  have hp := (Option.some.inj h).symm
  subst hp
  split
  · rename_i body _
    exact ⟨number, _, _, hn, rfl, Or.inl (by simp only; omega)⟩
  · split
    · exact ⟨number, _, _, hn, rfl, Or.inr rfl⟩
    · exact ⟨number, _, _, hn, rfl, Or.inr rfl⟩

/-- A statement is split off where white space stands behind another character. -/
theorem splitStatement_spec {t : Text} {d : Diagnostic} {p : Proposal}
    (h : splitStatement t d = some p) :
    ∃ c index cut, Caret.of? t d = some c ∧ index = c.index + c.countAhead isWhiteSpace ∧
      cut = index - ((c.line.take index).reverse.takeWhile isWhiteSpace).length ∧
      index < c.line.length ∧ 0 < cut ∧
      p = .safe (.replace ⟨d.line, cut + 1⟩ ⟨d.line, index + 1⟩ (t.newline ++ c.line.indent)) := by
  obtain ⟨c, hc, h⟩ := Option.bind_eq_some_iff.mp h
  simp only at h
  split at h
  · cases h
  · rename_i hcut
    simp only [Bool.or_eq_true, decide_eq_true_eq, beq_iff_eq, not_or, Nat.not_le,
      ← Nat.pos_iff_ne_zero] at hcut
    exact ⟨c, _, _, hc, rfl, rfl, hcut.1, hcut.2, (Option.some.inj h).symm⟩

theorem splitStatement_eq_some {t : Text} {d : Diagnostic} {p : Proposal}
    (h : splitStatement t d = some p) :
    ∃ c index cut, Caret.of? t d = some c ∧ index = c.index + c.countAhead isWhiteSpace ∧
      cut = index - ((c.line.take index).reverse.takeWhile isWhiteSpace).length ∧
      index < c.line.length ∧
      p = .safe (.replace ⟨d.line, cut + 1⟩ ⟨d.line, index + 1⟩ (t.newline ++ c.line.indent)) := by
  obtain ⟨c, index, cut, hc, hindex, hcut, hlt, -, hp⟩ := splitStatement_spec h
  exact ⟨c, index, cut, hc, hindex, hcut, hlt, hp⟩

/-- Where an anchor is in the line of a caret. -/
def Anchor.point (c : Caret) : Anchor → Nat
  | .caret => c.index
  | .lineEnd => c.line.trimEnd.length

/-- A text takes the place of a character only if that is white space. -/
theorem insertText_spec {text : Text} {anchor : Anchor} {level : Level} {t : Text}
    {d : Diagnostic} {p : Proposal} (h : insertText text anchor level t d = some p) :
    ∃ c, Caret.of? t d = some c ∧
      ((c.line.drop (anchor.point c)).head?.any isWhiteSpace = true ∧
          p = .atLevel level (.replaceSpan d.line (anchor.point c + 1) 1 text) ∨
        (c.line.drop (anchor.point c)).head?.any isWhiteSpace = false ∧
          p = .atLevel level (.insert ⟨d.line, anchor.point c + 1⟩ text)) := by
  obtain ⟨c, hc, h⟩ := Option.bind_eq_some_iff.mp h
  refine ⟨c, hc, ?_⟩
  cases anchor
  all_goals
    simp only [Anchor.point] at h ⊢
    split at h
    · cases h
    · split at h
      · rename_i hw
        exact .inl ⟨hw, (Option.some.inj h).symm⟩
      · rename_i hw
        exact .inr ⟨Bool.not_eq_true _ ▸ hw, (Option.some.inj h).symm⟩

/-- A text is inserted at its anchor, over a white-space character if one stands there. -/
theorem insertText_eq_some {text : Text} {anchor : Anchor} {level : Level} {t : Text}
    {d : Diagnostic} {p : Proposal} (h : insertText text anchor level t d = some p) :
    ∃ c, Caret.of? t d = some c ∧
      (p = .atLevel level (.replaceSpan d.line (anchor.point c + 1) 1 text) ∨
        p = .atLevel level (.insert ⟨d.line, anchor.point c + 1⟩ text)) := by
  obtain ⟨c, hc, ⟨-, hp⟩ | ⟨-, hp⟩⟩ := insertText_spec h
  · exact ⟨c, hc, .inl hp⟩
  · exact ⟨c, hc, .inr hp⟩

/-! ## Every strategy -/

/-- A strategy proposes one edit. -/
theorem Strategy.propose_single {s : Strategy} {t : Text} {d : Diagnostic} {p : Proposal}
    (h : s.propose t d = .ok (some p)) : ∃ edit, p.edits = [edit] := by
  cases s with
  | replaceToken replacement =>
    obtain ⟨c, -, -, rfl⟩ := replaceToken_eq_some h
    exact ⟨_, rfl⟩
  | replaceKeyword keywords =>
    obtain ⟨c, newText, -, rfl⟩ := replaceKeyword_eq_some (Except.ok.inj h)
    exact ⟨_, rfl⟩
  | encodeLabel rules delimiters =>
    obtain ⟨c, -, ⟨_, _, -, he⟩ | ⟨_, -, -, he⟩⟩ := encodeLabel_eq_some h
    · exact ⟨_, he⟩
    · exact ⟨_, he⟩
  | repairBracket shapes =>
    obtain ⟨c, _, _, -, -, rfl | rfl⟩ := repairBracket_eq_some h
    · exact ⟨_, rfl⟩
    · exact ⟨_, rfl⟩
  | closeBlock opener closer =>
    obtain ⟨_, _, _, -, rfl, -⟩ := closeBlock_eq_some (Except.ok.inj h)
    exact ⟨_, rfl⟩
  | splitStatement =>
    obtain ⟨c, _, _, -, -, -, -, rfl⟩ := splitStatement_eq_some (Except.ok.inj h)
    exact ⟨_, rfl⟩
  | insertText text anchor level =>
    obtain ⟨c, -, rfl | rfl⟩ := insertText_eq_some (Except.ok.inj h)
    · exact ⟨_, rfl⟩
    · exact ⟨_, rfl⟩

/-- Every repair but that of a block stays on the line of its diagnostic. -/
theorem Strategy.propose_line {s : Strategy} (hs : ∀ opener closer, s ≠ .closeBlock opener closer)
    {t : Text} {d : Diagnostic} {p : Proposal} (h : s.propose t d = .ok (some p)) :
    ∀ e ∈ p.edits, e.start.line = d.line ∧ e.ending.line = d.line := by
  intro e he
  cases s with
  | closeBlock opener closer => exact absurd rfl (hs opener closer)
  | replaceToken replacement =>
    obtain ⟨c, -, -, rfl⟩ := replaceToken_eq_some h
    rw [List.mem_singleton.mp he]
    exact ⟨rfl, rfl⟩
  | replaceKeyword keywords =>
    obtain ⟨c, newText, -, rfl⟩ := replaceKeyword_eq_some (Except.ok.inj h)
    rw [List.mem_singleton.mp he]
    exact ⟨rfl, rfl⟩
  | encodeLabel rules delimiters =>
    obtain ⟨c, -, ⟨_, _, -, hedits⟩ | ⟨_, -, -, hedits⟩⟩ := encodeLabel_eq_some h
    all_goals
      rw [hedits, List.mem_singleton] at he
      rw [he]
      exact ⟨rfl, rfl⟩
  | repairBracket shapes =>
    obtain ⟨c, _, _, -, -, rfl | rfl⟩ := repairBracket_eq_some h
    all_goals
      rw [List.mem_singleton.mp he]
      exact ⟨rfl, rfl⟩
  | splitStatement =>
    obtain ⟨c, _, _, -, -, -, -, rfl⟩ := splitStatement_eq_some (Except.ok.inj h)
    rw [List.mem_singleton.mp he]
    exact ⟨rfl, rfl⟩
  | insertText text anchor level =>
    obtain ⟨c, -, rfl | rfl⟩ := insertText_eq_some (Except.ok.inj h)
    all_goals
      rw [List.mem_singleton.mp he]
      exact ⟨rfl, rfl⟩

/-! ## Strategies that have an answer -/

/-- When a strategy has an answer for a diagnostic, to decline included: what the diagnostic spans,
where the strategy looks at it, ends at a number of 64 bits, and the label around it, where the
strategy encodes one, is not encoded for ever. -/
def Strategy.Answers (t : Text) (d : Diagnostic) : Strategy → Prop
  | .replaceToken _ => ∀ c, Caret.of? t d = some c → c.Fits d
  | .repairBracket shapes => ∀ c, Caret.of? t d = some c → Shape.unmatched? shapes c ≠ none →
    c.Fits d
  | .encodeLabel rules delimiters => ∀ c, Caret.of? t d = some c →
    ∀ span, enclosingSpan? c.line c.index delimiters = some span →
      (∀ r ∈ rules, r.encoded ≠ []) ∨ Written rules (span.inside c.line).2
  | _ => True

theorem Caret.exists_span_iff {c : Caret} {d : Diagnostic} :
    (∃ span, c.span d = .ok span) ↔ c.Fits d := by
  simp [Caret.span_eq_ok_iff]

theorem Strategy.exists_propose_iff {s : Strategy} {t : Text} {d : Diagnostic} :
    (∃ p, s.propose t d = .ok p) ↔ s.Answers t d := by
  cases s with
  | replaceKeyword | closeBlock | splitStatement | insertText => exact iff_of_true ⟨_, rfl⟩ trivial
  | replaceToken replacement =>
    simp only [propose, DiagramLint.replaceToken, Answers]
    cases hc : Caret.of? t d with
    | none => simp
    | some c => simp [exists_map_eq_ok_iff, Caret.exists_span_iff]
  | repairBracket shapes =>
    simp only [propose, DiagramLint.repairBracket, Answers]
    cases hc : Caret.of? t d with
    | none => simp
    | some c =>
      cases hu : Shape.unmatched? shapes c with
      | none => simp [hu]
      | some found => simp [hu, exists_map_eq_ok_iff, Caret.exists_span_iff]
  | encodeLabel rules delimiters =>
    simp only [propose, DiagramLint.encodeLabel, Answers]
    cases hc : Caret.of? t d with
    | none => simp
    | some c =>
      cases hs : enclosingSpan? c.line c.index delimiters with
      | none => simp [hs]
      | some span => simp [hs, exists_map_eq_ok_iff, encodeEntities_returns_iff]

end DiagramLint
