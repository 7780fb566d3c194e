-- The loop of a lexer, turn by turn. A turn calls the step once, whether or
-- not the step moves on, so the loop may stay at one place for ever. Where a
-- step does nothing else but read on, or stay for ever, the loop ends exactly
-- if the scan comes to its end, and it keeps track of what it has read.
import Mathlib.Logic.Relation
import DiagramLint.Proofs.Lexing.Tiling

namespace DiagramLint

variable {κ : Type}

/-! ## Reading on -/

/-- The cursor goes on behind one or more of the characters that are left. -/
def Yield.Consumes (s : Cursor) (y : Yield κ) : Prop :=
  ∃ n, 0 < n ∧ n ≤ s.rest.length ∧ y.cursor = s.skip n

theorem Cursor.skip_eq_skip_min (s : Cursor) (n : Nat) :
    s.skip n = s.skip (min n s.rest.length) := by
  induction n generalizing s with
  | zero => simp
  | succ n ih =>
    cases hrest : s.rest with
    | nil =>
      have hnext : s.next = s := by simp [next, hrest]
      rw [skip, hnext, ih, hrest]
      simp
    | cons c rest =>
      have hlength : s.next.rest.length = rest.length := by simp [next_rest, hrest]
      rw [skip, ih, hlength, List.length_cons, Nat.add_min_add_right]
      rfl

/-- Moving on where characters are left takes one of them or more. -/
theorem Yield.consumes_of_moves {s : Cursor} {y : Yield κ} (hs : s.rest ≠ [])
    (h : ∃ n, 0 < n ∧ y.cursor = s.skip n) : y.Consumes s := by
  obtain ⟨n, hpos, hmove⟩ := h
  have hlength := List.length_pos_iff.mpr hs
  exact ⟨min n s.rest.length, by omega, Nat.min_le_right _ _,
    hmove.trans (s.skip_eq_skip_min n)⟩

/-! ## Turns of the loop -/

namespace LexStep

/-- The loop turns once: characters are left, and the step leads from a reader to the next. -/
structure Turns (step : LexStep κ) (s s' : Reader κ) : Prop where
  rest : s.cursor.rest ≠ []
  after : s' = s.after (step s)

/-- The loop comes from the first reader to the second. -/
abbrev Visits (step : LexStep κ) : Reader κ → Reader κ → Prop :=
  Relation.ReflTransGen step.Turns

/-- The loop comes to the end of the text. -/
def Ends (step : LexStep κ) (s : Reader κ) : Prop := ∃ e, step.Visits s e ∧ e.cursor.rest = []

/-- The loop over a text comes to a step that yields the token. -/
def Pushes (step : LexStep κ) (t : Text) (tok : Token κ) : Prop :=
  ∃ s, step.Visits (Reader.ofText t) s ∧ s.cursor.rest ≠ [] ∧ tok ∈ (step s).tokens

/-- The reader after a number of turns. -/
def turned (step : LexStep κ) (s : Reader κ) : Nat → Reader κ
  | 0 => s
  | n + 1 => turned step (s.after (step s)) n

/-- The loop stays where it is for ever. -/
def Stays (step : LexStep κ) (s : Reader κ) : Prop :=
  ∀ s', step.Visits s s' → s'.cursor = s.cursor

variable {step : LexStep κ} {eof : κ} {s s' : Reader κ}

theorem turns (step : LexStep κ) (h : s.cursor.rest ≠ []) : step.Turns s (s.after (step s)) :=
  ⟨h, rfl⟩

theorem Turns.unique {a b : Reader κ} (ha : step.Turns s a) (hb : step.Turns s b) : a = b :=
  ha.after.trans hb.after.symm

/-- The loop comes to the reader after `n` turns, if characters are left before each of them. -/
theorem visits_turned {n : Nat} (h : ∀ k < n, (step.turned s k).cursor.rest ≠ []) :
    step.Visits s (step.turned s n) := by
  induction n generalizing s with
  | zero => exact .refl
  | succ n ih =>
    refine .head (step.turns (h 0 (Nat.zero_lt_succ n))) (ih ?_)
    exact fun k hk => h (k + 1) (Nat.succ_lt_succ hk)

/-- What the loop comes to on its way to the end leads to the end. -/
theorem Ends.of_visits (h : step.Ends s) (hv : step.Visits s s') : step.Ends s' := by
  obtain ⟨e, he, hnil⟩ := h
  rcases Relation.ReflTransGen.total_of_right_unique (fun _ _ _ h₁ h₂ => h₁.unique h₂) he hv
    with hback | hon
  · rcases Relation.ReflTransGen.cases_head hback with rfl | ⟨_, hturn, -⟩
    · exact ⟨e, .refl, hnil⟩
    · exact absurd hnil hturn.rest
  · exact ⟨e, hon, hnil⟩

theorem Stays.not_ends (h : step.Stays s) (hs : s.cursor.rest ≠ []) : ¬ step.Ends s := by
  rintro ⟨e, he, hnil⟩
  rw [h e he] at hnil
  exact hs hnil

/-- A step that reads on wherever the loop comes leads the scan to its end. -/
theorem exists_finished_of_consumes
    (h : ∀ s', step.Visits s s' → s'.cursor.rest ≠ [] → (step s').Consumes s'.cursor) (eof : κ) :
    ∃ l, Scan.run step eof s = .finished l := by
  refine Scan.exists_finished (P := step.Visits s) ?_ eof s .refl
  intro r hv hr
  obtain ⟨n, hpos, -, hmove⟩ := h r hv hr
  exact ⟨⟨n, hpos, hmove⟩, hv.tail (step.turns hr)⟩

/-- A scan that comes to its end is a loop that does. -/
theorem ends_of_finished {l : Lexed κ} (h : Scan.run step eof s = .finished l) :
    step.Ends s := by
  induction hn : s.cursor.rest.length using Nat.strongRecOn generalizing s l with
  | ind n ih =>
    rw [Scan.run] at h
    split at h
    · exact ⟨s, .refl, ‹_›⟩
    · rename_i c rest hrest
      dsimp only at h
      split at h
      · rename_i hlt
        generalize hlater : Scan.run step eof (s.after (step s)) = later at h
        cases later with
        | stalled l' place => cases h
        | finished l' =>
          obtain ⟨e, he, hnil⟩ := ih _ (hn ▸ hlt) hlater rfl
          exact ⟨e, .head (step.turns (by simp [hrest])) he, hnil⟩
      · cases h

/-! ## Steps that read on or stay -/

/-- With characters left, a step reads on, or the loop stays where it is for ever. -/
def Settles (step : LexStep κ) : Prop :=
  ∀ s : Reader κ, s.cursor.rest ≠ [] → (step s).Consumes s.cursor ∨ step.Stays s

theorem Settles.consumes_of_ends (h : step.Settles) (hs : step.Ends s)
    (hv : step.Visits s s') (hne : s'.cursor.rest ≠ []) : (step s').Consumes s'.cursor := by
  rcases h s' hne with hreads | hstays
  · exact hreads
  · exact absurd (hs.of_visits hv) (hstays.not_ends hne)

/-- The scan comes to its end exactly where the loop does. -/
theorem Settles.finished_iff_ends (h : step.Settles) (eof : κ) :
    (∃ l, Scan.run step eof s = .finished l) ↔ step.Ends s :=
  ⟨fun ⟨_, hl⟩ => ends_of_finished hl,
    fun hs => exists_finished_of_consumes (fun _ hv hne => h.consumes_of_ends hs hv hne) eof⟩

/-- The loop keeps track of what it has read. -/
theorem Settles.at_visits (h : step.Settles) {t before : Text} (hat : s.cursor.At t before)
    (hv : step.Visits s s') : ∃ mid, s'.cursor.At t (before ++ mid) := by
  induction hv with
  | refl => exact ⟨[], by simpa using hat⟩
  | @tail r r' _ hturn ih =>
    obtain ⟨mid, hmid⟩ := ih
    rw [hturn.after]
    rcases h r hturn.rest with ⟨n, -, -, hmove⟩ | hstays
    · refine ⟨mid ++ r.cursor.rest.take n, ?_⟩
      rw [← List.append_assoc]
      change (step r).cursor.At t _
      rw [hmove]
      exact hmid.skip n
    · exact ⟨mid, by rw [hstays _ (.single (step.turns hturn.rest))]; exact hmid⟩

end LexStep

/-! ## Where a token starts -/

/-- The token starts at a character of the text. -/
def Token.StartsAt (t : Text) (tok : Token κ) (c : Char) : Prop :=
  ∃ before after, t = before ++ c :: after ∧ tok.place = placeAfter before

/-- A character that a token starts at is the next one at the cursor it was read from. -/
theorem Token.StartsAt.rest_eq {t before : Text} {s : Cursor} {tok : Token κ} {c : Char}
    (h : tok.StartsAt t c) (hat : s.At t before) (hp : tok.place = s.place) :
    ∃ rest, s.rest = c :: rest := by
  obtain ⟨before', after, htext, hplace⟩ := h
  have hsame : before' = before := by
    refine eq_of_placeAfter_eq ⟨_, htext.symm⟩ ⟨_, hat.text_eq.symm⟩ ?_
    rw [← hplace, hp, hat.place_eq]
  rw [hsame, hat.text_eq] at htext
  exact ⟨after, List.append_cancel_left htext⟩

/-- A token read at a cursor starts at the next character. -/
theorem Cursor.At.startsAt {t before rest : Text} {s : Cursor} {tok : Token κ} {c : Char}
    (h : s.At t before) (hrest : s.rest = c :: rest) (hp : tok.place = s.place) :
    tok.StartsAt t c :=
  ⟨before, rest, by rw [h.text_eq, hrest], hp.trans h.place_eq⟩

end DiagramLint
