-- The lexers of the three languages are faithful to their texts, and read on at
-- every turn of their loops, but for the pie chart lexer before white space
-- that neither separates tokens nor ends a line: it stays there for ever. The
-- free text of a title is taken along with the title, so it may start with such
-- white space and the loop ends all the same.
import DiagramLint.Proofs.Flowchart.Tiles
import DiagramLint.Proofs.Lexing.Faithful
import DiagramLint.Proofs.Pie.Tiles
import DiagramLint.Proofs.Pie.Turns
import DiagramLint.Proofs.Sequence.Tiles

namespace DiagramLint

/-! ## Tokens and texts -/

variable {κ : Type}

theorem LexStep.Covers.faithful {eof newline text : κ} {step : LexStep κ}
    (h : step.Covers eof newline text) (hne : newline ≠ eof) (htn : text ≠ newline) {t : Text}
    {l : Lexed κ} (hl : Scan.run step eof (Reader.ofText t) = .finished l) :
    l.Faithful eof newline text t :=
  (h.run (Reader.ofText t) hl).faithful hne htn

/-- The tokens of a text end in its only end of text, each is what stands where it says, they
follow each other without overlapping, and without errors nothing is lost between them. -/
theorem lexers_are_faithful_to_their_text (t : Text) :
    (Flowchart.tokenize t).Faithful .eof .newline .text t ∧
      (Sequence.tokenize t).Faithful .eof .newline .text t ∧
      ∀ l, Pie.scan t = .finished l →
        Pie.tokenize t = .ok l ∧ l.Faithful .eof .newline .text t := by
  refine ⟨?_, ?_, ?_⟩
  · exact Flowchart.lexStep_covers.faithful (by decide) (by decide) (Flowchart.scan_eq_finished t)
  · exact Sequence.lexStep_covers.faithful (by decide) (by decide) (Sequence.scan_eq_finished t)
  · intro l hl
    exact ⟨Scan.result_eq_ok_iff.mpr hl,
      Pie.lexStep_covers.faithful (by decide) (by decide) hl⟩

/-- A pie chart with a title, a comment and an entry. -/
def titledPie : Text := "pie title Pets \r\n%% none\n\"Dogs\" : 3.5".toList

theorem titledPie_is_faithful :
    ∃ l, Pie.scan titledPie = .finished l ∧ Pie.tokenize titledPie = .ok l ∧
      l.Faithful .eof .newline .text titledPie := by
  obtain ⟨l, hl⟩ := Pie.scan_finishes_of_all (t := titledPie) (by decide)
  exact ⟨l, hl, (lexers_are_faithful_to_their_text titledPie).2.2 l hl⟩

/-! ## Turns of the loops -/

/-- With characters left, a turn of a lexer reads one of them or more. Only the pie chart lexer
reads none, before stray white space, and its loop never leaves it. So the other loops always end,
and that of a pie chart ends exactly if it comes to no stray white space, that is, if no token
other than the free text of a title starts at some. A scan that stalls is a loop that does not
end. -/
theorem lexers_read_on_but_at_stray_white_space (t : Text) :
    (∀ s, Flowchart.lexStep.Visits (Reader.ofText t) s → s.cursor.rest ≠ [] →
        (Flowchart.lexStep s).Consumes s.cursor) ∧
      (∀ s, Sequence.lexStep.Visits (Reader.ofText t) s → s.cursor.rest ≠ [] →
        (Sequence.lexStep s).Consumes s.cursor) ∧
      (∀ s c rest, Pie.lexStep.Visits (Reader.ofText t) s → s.cursor.rest = c :: rest →
        (¬ IsStray c → (Pie.lexStep s).Consumes s.cursor) ∧
        (IsStray c → (Pie.lexStep s).cursor = s.cursor ∧ Pie.lexStep.Stays s ∧
          ¬ Pie.lexStep.Ends s)) ∧
      Flowchart.lexStep.Ends (Reader.ofText t) ∧ Sequence.lexStep.Ends (Reader.ofText t) ∧
      (Pie.lexStep.Ends (Reader.ofText t) ↔ ∀ s, Pie.lexStep.Visits (Reader.ofText t) s →
        ∀ c ∈ s.cursor.rest.head?, ¬ IsStray c) ∧
      (Pie.lexStep.Ends (Reader.ofText t) ↔ ∀ tok, Pie.lexStep.Pushes t tok → tok.kind ≠ .text →
        ∀ c, tok.StartsAt t c → ¬ IsStray c) ∧
      ((∃ l, Pie.scan t = .finished l) ↔ Pie.lexStep.Ends (Reader.ofText t)) := by
  refine ⟨?_, ?_, ?_, ?_, ?_, Pie.ends_iff_visits, Pie.ends_iff_pushes,
    Pie.lexStep_settles.finished_iff_ends .eof⟩
  · exact fun s _ hs => Yield.consumes_of_moves hs (Flowchart.lexStep_passes s hs).moves
  · exact fun s _ hs => Yield.consumes_of_moves hs (Sequence.lexStep_passes s hs).moves
  · intro s c rest _ hrest
    refine ⟨Pie.consumes_of_not_isStray hrest, ?_⟩
    intro hc
    have hstays := Pie.stays_of_isStray hrest hc
    have hcursor : (Pie.lexStep s).cursor = s.cursor := by
      rw [Pie.lexStep_of_isStray hrest hc]
      rfl
    exact ⟨hcursor, hstays, hstays.not_ends (by simp [hrest])⟩
  · obtain ⟨l, hl⟩ := Flowchart.scan_finishes t
    exact LexStep.ends_of_finished hl
  · obtain ⟨l, hl⟩ := Sequence.scan_finishes t
    exact LexStep.ends_of_finished hl

/-- A pie chart with nothing but a no-break space for a title. -/
def blankTitle : Text := "pie title \u00a0".toList

theorem blankTitle_is_never_read :
    (Flowchart.lexStep (Reader.ofText blankTitle)).Consumes (Cursor.ofText blankTitle) ∧
      (Sequence.lexStep (Reader.ofText blankTitle)).Consumes (Cursor.ofText blankTitle) ∧
      Pie.lexStep.Stays (Pie.lexStep.turned (Reader.ofText blankTitle) 3) ∧
      ¬ Pie.lexStep.Ends (Reader.ofText blankTitle) := by
  obtain ⟨hflowchart, hsequence, hpie, -⟩ := lexers_read_on_but_at_stray_white_space blankTitle
  have hvisits : Pie.lexStep.Visits (Reader.ofText blankTitle)
      (Pie.lexStep.turned (Reader.ofText blankTitle) 3) := LexStep.visits_turned (by decide)
  have hrest : (Pie.lexStep.turned (Reader.ofText blankTitle) 3).cursor.rest = ['\u00a0'] := by
    decide
  obtain ⟨-, hstays, hends⟩ := (hpie _ '\u00a0' [] hvisits hrest).2 (by decide)
  exact ⟨hflowchart _ .refl (by decide), hsequence _ .refl (by decide), hstays,
    fun h => hends (h.of_visits hvisits)⟩

/-- A pie chart whose title starts with a no-break space. -/
def spacedTitle : Text := "pie title \u00a0x".toList

/-- The free text of a title may start at stray white space, and the loop ends. -/
theorem a_title_may_start_at_stray_white_space :
    ¬ (Pie.lexStep.Ends (Reader.ofText spacedTitle) ↔
      ∀ tok, Pie.lexStep.Pushes spacedTitle tok →
        ∀ c, tok.StartsAt spacedTitle c → ¬ IsStray c) := by
  intro h
  have hends : Pie.lexStep.Ends (Reader.ofText spacedTitle) :=
    ⟨Pie.lexStep.turned (Reader.ofText spacedTitle) 3, LexStep.visits_turned (by decide),
      by decide⟩
  have hpushes : Pie.lexStep.Pushes spacedTitle ⟨.text, "\u00a0x", 1, 11⟩ :=
    ⟨Pie.lexStep.turned (Reader.ofText spacedTitle) 2, LexStep.visits_turned (by decide),
      by decide, by decide⟩
  have hstarts : (⟨.text, "\u00a0x", 1, 11⟩ : Pie.Tok).StartsAt spacedTitle '\u00a0' :=
    ⟨"pie title ".toList, ['x'], by decide, by decide⟩
  exact h.mp hends _ hpushes '\u00a0' hstarts (by decide)

end DiagramLint
