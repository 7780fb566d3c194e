-- The loop of the pie chart lexer. White space that neither separates tokens
-- nor ends a line is read as an empty word, over and over; before every other
-- character a step reads on. So the loop ends unless it comes to such white
-- space, and then only the free text of a title can start with some.
import DiagramLint.Proofs.Lexing.Turns
import DiagramLint.Proofs.Pie.Tiles

namespace DiagramLint

/-- White space that neither separates tokens nor ends a line. -/
def IsStray (c : Char) : Prop :=
  isWhiteSpace c = true ∧ c ≠ ' ' ∧ c ≠ '\t' ∧ c ≠ '\r' ∧ c ≠ '\n'

instance : DecidablePred IsStray := fun c =>
  inferInstanceAs (Decidable (isWhiteSpace c = true ∧ c ≠ ' ' ∧ c ≠ '\t' ∧ c ≠ '\r' ∧ c ≠ '\n'))

theorem isStray_iff {c : Char} :
    IsStray c ↔ isWhiteSpace c = true ∧ Cursor.isBlankChar c = false ∧ c ≠ '\n' := by
  simp [IsStray, Cursor.isBlankChar, and_assoc]

namespace Pie

variable {s s' : Reader Kind} {c : Char} {rest : Text}

/-! ## One turn -/

/-- Stray white space is read as an empty word. -/
theorem lexStep_of_isStray (hrest : s.cursor.rest = c :: rest) (hc : IsStray c) :
    lexStep s = .token (Token.ofText .word [] s.cursor.place) s.cursor := by
  obtain ⟨hwhite, hblank, hn⟩ := isStray_iff.mp hc
  rw [lexStep_of_isWhiteSpace hrest hwhite hblank hn, word_eq_of_isWhiteSpace hrest hwhite]

theorem consumes_of_not_isStray (hrest : s.cursor.rest = c :: rest) (hc : ¬ IsStray c) :
    (lexStep s).Consumes s.cursor := by
  rcases lexStep_passes_or_stays hrest with hpass | ⟨-, hwhite, hblank, hn⟩
  · exact Yield.consumes_of_moves (by simp [hrest]) hpass.moves
  · exact absurd (isStray_iff.mpr ⟨hwhite, hblank, hn⟩) hc

/-- All that a step reads starts at its cursor, but the free text of a title. -/
theorem place_of_mem_lexStep {tok : Tok} (hm : tok ∈ (lexStep s).tokens) (hk : tok.kind ≠ .text) :
    tok.place = s.cursor.place := by
  have hword : tok ∈ (word s).tokens → tok.place = s.cursor.place := by
    intro hm
    obtain ⟨later, htokens, hlater⟩ := word_tokens s
    rw [htokens] at hm
    rcases List.mem_cons.mp hm with rfl | hm
    · rfl
    · exact absurd (hlater tok hm) hk
  have hlexeme : ∀ {kind n}, tok ∈ (lexeme kind n s.cursor).tokens → tok.place = s.cursor.place := by
    intro kind n hm
    rw [List.mem_singleton.mp hm]
    rfl
  unfold lexStep at hm
  split at hm
  · cases hm
  · split at hm
    · cases hm
    · split at hm
      · exact hlexeme hm
      · split at hm
        · cases hm
        · split at hm
          · exact hlexeme hm
          · split at hm
            · unfold quotedString at hm
              split at hm
              · exact hlexeme hm
              · cases hm
            · split at hm
              · exact hlexeme hm
              · exact hword hm

/-! ## The loop -/

/-- The loop never leaves stray white space. -/
theorem stays_of_isStray (hrest : s.cursor.rest = c :: rest) (hc : IsStray c) :
    lexStep.Stays s := by
  intro s' hv
  induction hv with
  | refl => rfl
  | @tail r r' _ hturn ih =>
    have hstep := lexStep_of_isStray (by rw [ih, hrest] : r.cursor.rest = c :: rest) hc
    rw [hturn.after]
    change (lexStep r).cursor = s.cursor
    rw [hstep]
    exact ih

theorem lexStep_settles : lexStep.Settles := by
  intro s hs
  obtain ⟨c, rest, hrest⟩ := List.exists_cons_of_ne_nil hs
  by_cases hc : IsStray c
  · exact .inr (stays_of_isStray hrest hc)
  · exact .inl (consumes_of_not_isStray hrest hc)

/-- The loop ends unless it comes to stray white space. -/
theorem ends_iff_visits :
    lexStep.Ends s ↔ ∀ s', lexStep.Visits s s' → ∀ c ∈ s'.cursor.rest.head?, ¬ IsStray c := by
  constructor
  · intro hends s' hv c hc hstray
    obtain ⟨rest, hrest⟩ := List.head?_eq_some_iff.mp hc
    exact (stays_of_isStray hrest hstray).not_ends (by simp [hrest]) (hends.of_visits hv)
  · intro h
    refine (lexStep_settles.finished_iff_ends .eof).mp
      (LexStep.exists_finished_of_consumes ?_ Kind.eof)
    intro s' hv hne
    obtain ⟨c, rest, hrest⟩ := List.exists_cons_of_ne_nil hne
    exact consumes_of_not_isStray hrest (h s' hv c (by rw [hrest]; rfl))

/-- The loop over a text ends unless a token, other than the free text of a title, starts at stray
white space. -/
theorem ends_iff_pushes {t : Text} :
    lexStep.Ends (Reader.ofText t) ↔ ∀ tok, lexStep.Pushes t tok → tok.kind ≠ .text →
      ∀ c, tok.StartsAt t c → ¬ IsStray c := by
  have hstart : (Reader.ofText t : Reader Kind).cursor.At t [] := Cursor.at_ofText t
  rw [ends_iff_visits]
  constructor
  · rintro h tok ⟨s, hv, -, hm⟩ hk c hc
    obtain ⟨before, hat⟩ := lexStep_settles.at_visits hstart hv
    obtain ⟨rest, hrest⟩ := hc.rest_eq hat (place_of_mem_lexStep hm hk)
    exact h s hv c (by rw [hrest]; rfl)
  · intro h s hv c hc hstray
    obtain ⟨before, hat⟩ := lexStep_settles.at_visits hstart hv
    obtain ⟨rest, hrest⟩ := List.head?_eq_some_iff.mp hc
    -- the empty word read there starts at the white space
    have hm : Token.ofText .word [] s.cursor.place ∈ (lexStep s).tokens := by
      rw [lexStep_of_isStray hrest hstray]
      exact List.mem_singleton_self _
    have hstarts : (Token.ofText Kind.word [] s.cursor.place).StartsAt t c :=
      hat.startsAt hrest rfl
    exact h _ ⟨s, hv, by simp [hrest], hm⟩ (by simp [Token.ofText]) c hstarts hstray

end Pie

end DiagramLint
