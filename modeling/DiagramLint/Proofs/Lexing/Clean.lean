-- Scans without errors. Such a scan is a run of steps that lead from one
-- reader to the next up to the end of the text; of two readers on the run,
-- the earlier one leads to the later one, and every token is yielded at one
-- of them.
import Mathlib.Logic.Relation
import DiagramLint.Proofs.Lexing.Tiling

namespace DiagramLint

variable {κ : Type}

namespace LexStep

variable {step : LexStep κ} {s s' : Reader κ}

/-! ## Steps that lead on -/

/-- The step moves on from a reader to the next one, without an error. -/
structure Leads (step : LexStep κ) (s s' : Reader κ) : Prop where
  rest : s.cursor.rest ≠ []
  moves : (step s).cursor.rest.length < s.cursor.rest.length
  errors : (step s).errors = []
  after : s' = s.after (step s)

/-- The steps lead from a reader to the end of the text. -/
inductive Clean (step : LexStep κ) : Reader κ → Prop where
  | done {s : Reader κ} (h : s.cursor.rest = []) : step.Clean s
  | more {s s' : Reader κ} (h : step.Leads s s') (hc : step.Clean s') : step.Clean s

/-- Steps lead from the first reader to the second. -/
abbrev Reaches (step : LexStep κ) : Reader κ → Reader κ → Prop :=
  Relation.ReflTransGen step.Leads

theorem Leads.unique {a b : Reader κ} (ha : step.Leads s a) (hb : step.Leads s b) : a = b :=
  ha.after.trans hb.after.symm

theorem Leads.length_lt (h : step.Leads s s') : s'.cursor.rest.length < s.cursor.rest.length := by
  rw [h.after]
  exact h.moves

theorem Clean.leads (h : step.Clean s) (hs : s.cursor.rest ≠ []) :
    step.Leads s (s.after (step s)) := by
  cases h with
  | done hd => exact absurd hd hs
  | more hl hc => exact hl.after ▸ hl

theorem Clean.of_leads (h : step.Clean s) (hl : step.Leads s s') : step.Clean s' := by
  cases h with
  | done hd => exact absurd hd hl.rest
  | more hl' hc => exact hl'.unique hl ▸ hc

theorem Clean.of_reaches (h : step.Clean s) (hr : step.Reaches s s') : step.Clean s' := by
  induction hr with
  | refl => exact h
  | tail _ hl ih => exact ih.of_leads hl

theorem Clean.reaches_end (h : step.Clean s) : ∃ e, step.Reaches s e ∧ e.cursor.rest = [] := by
  induction h with
  | done hd => exact ⟨_, .refl, hd⟩
  | more hl _ ih =>
    obtain ⟨e, hr, he⟩ := ih
    exact ⟨e, .head hl hr, he⟩

theorem Reaches.length_le (h : step.Reaches s s') :
    s'.cursor.rest.length ≤ s.cursor.rest.length := by
  induction h with
  | refl => exact Nat.le_refl _
  | tail _ hl ih => exact Nat.le_trans (Nat.le_of_lt hl.length_lt) ih

/-- Of two readers on one run, the one with more text left comes first. -/
theorem Reaches.linear {a b : Reader κ} (ha : step.Reaches s a) (hb : step.Reaches s b)
    (hle : b.cursor.rest.length ≤ a.cursor.rest.length) : step.Reaches a b := by
  rcases Relation.ReflTransGen.total_of_right_unique
    (fun _ _ _ h₁ h₂ => h₁.unique h₂) ha hb with hab | hba
  · exact hab
  · -- the second reader leads to the first one, and has no more text left: they are one
    rcases Relation.ReflTransGen.cases_head hba with heq | ⟨c, hl, hca⟩
    · exact heq ▸ .refl
    · have h1 := hl.length_lt
      have h2 := Reaches.length_le hca
      omega

/-- A step that leads on has read some characters. -/
theorem Honest.at_leads {solid : κ → Bool} {ends : Char → Bool} (h : step.Honest solid ends)
    {t before : Text} (hs : s.cursor.At t before) (hl : step.Leads s s') :
    ∃ x, s.cursor.rest = x ++ s'.cursor.rest ∧ s'.cursor.At t (before ++ x) := by
  obtain ⟨x, hat⟩ := (h t _ _ hs hl.rest hl.moves).cursor
  have hbehind : s'.cursor.At t (before ++ x) := hl.after ▸ hat
  refine ⟨x, ?_, hbehind⟩
  have htext := hs.text_eq.symm.trans hbehind.text_eq
  rwa [List.append_assoc, List.append_cancel_left_eq] at htext

/-- Steps keep track of what they have read. -/
theorem Honest.at_reaches {solid : κ → Bool} {ends : Char → Bool} (h : step.Honest solid ends)
    {t before : Text} (hs : s.cursor.At t before) (hr : step.Reaches s s') :
    ∃ mid, s'.cursor.At t (before ++ mid) := by
  induction hr with
  | refl => exact ⟨[], by simpa using hs⟩
  | tail _ hl ih =>
    obtain ⟨mid, hat⟩ := ih
    obtain ⟨more, hmore⟩ := (h t _ _ hat hl.rest hl.moves).cursor
    refine ⟨mid ++ more, ?_⟩
    rw [hl.after, ← List.append_assoc]
    exact hmore

end LexStep

/-! ## The rest of a line as text -/

/-- Characters of one line, not all of them white space. -/
def Filled (x : Text) : Prop := '\n' ∉ x ∧ ∃ c ∈ x, isWhiteSpace c = false

namespace Cursor

theorem skip_takeWhile_rest (s : Cursor) (p : Char → Bool) :
    (s.skip (s.rest.takeWhile p).length).rest = s.rest.dropWhile p := by
  rw [skip_rest]
  conv_lhs =>
    arg 2
    rw [← List.takeWhile_append_dropWhile (p := p) (l := s.rest)]
  rw [List.drop_left]

theorem skipBlanks_rest (s : Cursor) : s.skipBlanks.rest = s.rest.dropWhile isBlankChar :=
  s.skip_takeWhile_rest isBlankChar

theorem takeLine_rest (s : Cursor) : s.takeLine.2.rest = s.rest.dropWhile (· != '\n') :=
  s.skip_takeWhile_rest (· != '\n')

/-- A run of characters ends before one that does not belong to it. -/
theorem head?_of_dropWhile {p : Char → Bool} {t x y : Text} (h : t.dropWhile p = x ++ y) {c : Char}
    (hc : c ∈ x.head?) : p c = false := by
  obtain ⟨more, rfl⟩ := List.head?_eq_some_iff.mp hc
  have hstop := List.head?_dropWhile_not p t
  rw [h] at hstop
  simpa using hstop

theorem isWhiteSpace_of_isBlankChar {c : Char} (h : isBlankChar c = true) :
    isWhiteSpace c = true := by
  simp only [isBlankChar, Bool.or_eq_true, beq_iff_eq] at h
  rcases h with (rfl | rfl) | rfl
  all_goals decide

theorem ne_newline_of_isBlankChar {c : Char} (h : isBlankChar c = true) : (c != '\n') = true := by
  rw [bne_iff_ne]
  rintro rfl
  cases h

theorem wholeLine_skipBlanks (s : Cursor) :
    s.wholeLine = s.rest.takeWhile isBlankChar ++ s.skipBlanks.wholeLine := by
  unfold wholeLine
  rw [skipBlanks_rest, ← List.takeWhile_append_of_pos (p := (· != '\n')),
    List.takeWhile_append_dropWhile]
  exact fun c hc => ne_newline_of_isBlankChar (List.mem_takeWhile_imp hc)

theorem At.unique {t a b : Text} {s : Cursor} (ha : s.At t a) (hb : s.At t b) : a = b :=
  List.append_cancel_right (ha.text_eq.symm.trans hb.text_eq)

/-- Only white space is left on a line up to the line feed, or the line has other characters. -/
theorem atLineEnd_iff (s : Cursor) :
    s.atLineEnd = true ↔ ∀ c ∈ s.wholeLine, isWhiteSpace c = true := by
  obtain ⟨returns, hline, hreturns⟩ := s.exists_wholeLine
  unfold atLineEnd Text.isBlank
  rw [List.all_eq_true, hline]
  constructor
  · intro h c hc
    rcases List.mem_append.mp hc with hc | hc
    · exact h c hc
    · rw [hreturns c hc]
      decide
  · exact fun h c hc => h c (List.mem_append_left _ hc)

/-- The rest of a line is taken as a text, up to the line feed, or it is white space and only its
blanks are passed. -/
theorem trailingToken_cases (kind : κ) (s : Cursor) :
    (∀ c ∈ s.wholeLine, isWhiteSpace c = true) ∧ (s.trailingToken kind).1 = [] ∧
        (s.trailingToken kind).2.rest = s.rest.dropWhile isBlankChar ∨
      Filled s.wholeLine ∧ (∃ tok, (s.trailingToken kind).1 = [tok] ∧ tok.kind = kind) ∧
        (s.trailingToken kind).2.rest = s.rest.dropWhile (· != '\n') := by
  have hwhole := s.wholeLine_skipBlanks
  unfold trailingToken
  dsimp only
  split
  · rename_i hend
    left
    refine ⟨?_, rfl, s.skipBlanks_rest⟩
    intro c hc
    rw [hwhole] at hc
    rcases List.mem_append.mp hc with hc | hc
    · exact isWhiteSpace_of_isBlankChar (List.mem_takeWhile_imp hc)
    · exact s.skipBlanks.atLineEnd_iff.mp hend c hc
  · rename_i hend
    right
    refine ⟨⟨s.newline_not_mem_wholeLine, ?_⟩, ⟨_, rfl, rfl⟩, ?_⟩
    · rw [s.skipBlanks.atLineEnd_iff] at hend
      push Not at hend
      obtain ⟨c, hc, hw⟩ := hend
      exact ⟨c, by rw [hwhole]; exact List.mem_append_right _ hc, by simpa using hw⟩
    · change s.skipBlanks.takeLine.2.rest = _
      rw [takeLine_rest, skipBlanks_rest]
      conv_rhs => rw [← List.takeWhile_append_dropWhile (p := isBlankChar) (l := s.rest)]
      rw [List.dropWhile_append_of_pos]
      exact fun c hc => ne_newline_of_isBlankChar (List.mem_takeWhile_imp hc)

end Cursor

/-! ## Runs of characters -/

theorem head?_dropWhile_stops (p : Char → Bool) (t : Text) :
    ∀ d ∈ (t.dropWhile p).head?, p d = false :=
  fun _ hd => Cursor.head?_of_dropWhile (t := t) (y := []) (List.append_nil _).symm hd

/-- The first of a run of characters is the first that is there, if there is one of the run. -/
theorem head?_takeWhile_append {p : Char → Bool} {a b : Text} (hb : ∀ d ∈ b.head?, p d = false)
    {c : Char} (hc : p c = true) : (a ++ b).head? = some c ↔ a.head? = some c := by
  cases a with
  | nil =>
    refine iff_of_false (fun h => ?_) (by simp)
    rw [hb c h] at hc
    cases hc
  | cons d a => exact Iff.rfl

theorem takeWhile_append_of_stops {p : Char → Bool} {a b : Text} (ha : ∀ d ∈ a, p d = true)
    (hb : ∀ d ∈ b.head?, p d = false) : (a ++ b).takeWhile p = a := by
  rw [List.takeWhile_append_of_pos ha]
  cases b with
  | nil => simp
  | cons d b => simp [hb d rfl]

theorem dropWhile_append_of_stops {p : Char → Bool} {a b : Text} (ha : ∀ d ∈ a, p d = true)
    (hb : ∀ d ∈ b.head?, p d = false) : (a ++ b).dropWhile p = b := by
  rw [List.dropWhile_append_of_pos ha]
  cases b with
  | nil => rfl
  | cons d b => simp [hb d rfl]

/-! ## Scans -/

/-- A scan comes to its end and reports nothing exactly when its steps lead to the end of the
text. -/
theorem Scan.clean_iff {step : LexStep κ} {eof : κ} {s : Reader κ} :
    (∃ l, run step eof s = .finished l ∧ l.errors = []) ↔ step.Clean s := by
  constructor
  · rintro ⟨l, hl, he⟩
    induction hn : s.cursor.rest.length using Nat.strongRecOn generalizing s l with
    | ind n ih =>
      rw [run] at hl
      split at hl
      · rename_i hrest
        exact .done hrest
      · rename_i hrest
        dsimp only at hl
        split at hl
        · rename_i hlt
          cases hrun : run step eof (s.after (step s)) with
          | stalled rest place =>
            rw [hrun] at hl
            cases hl
          | finished rest =>
            rw [hrun] at hl
            cases hl
            obtain ⟨hfirst, hrest'⟩ := List.append_eq_nil_iff.mp he
            exact .more ⟨by simp [hrest], hlt, hfirst, rfl⟩ (ih _ (hn ▸ hlt) _ hrun hrest' rfl)
        · cases hl
  · intro h
    induction h with
    | done hd => exact ⟨_, by rw [run, hd], rfl⟩
    | @more s s' hl _ ih =>
      obtain ⟨c, rest, hrest⟩ := List.exists_cons_of_ne_nil hl.rest
      obtain ⟨l, hrun, he⟩ := ih
      rw [hl.after] at hrun
      refine ⟨(step s).lexed ++ l, ?_, List.append_eq_nil_iff.mpr ⟨hl.errors, he⟩⟩
      rw [run, hrest]
      dsimp only
      rw [if_pos (hrest ▸ hl.moves), hrun]
      rfl

/-- Of a scan that comes to its end, the errors tell whether it is clean. -/
theorem Scan.errors_eq_nil_iff {step : LexStep κ} {eof : κ} {s : Reader κ} {l : Lexed κ}
    (h : run step eof s = .finished l) : l.errors = [] ↔ step.Clean s := by
  constructor
  · intro he
    exact clean_iff.mp ⟨l, h, he⟩
  · intro hclean
    obtain ⟨own, hown, he⟩ := (@clean_iff _ step eof s).mpr hclean
    cases h.symm.trans hown
    exact he

section

variable {step : LexStep κ} {eof : κ} {s s' : Reader κ}

theorem LexStep.Leads.tokens_run (h : step.Leads s s') (eof : κ) :
    (Scan.run step eof s).lexed.tokens =
      (step s).tokens ++ (Scan.run step eof s').lexed.tokens := by
  rcases Scan.tokens_run step eof s with ⟨hnil, -⟩ | ⟨-, hstall, -⟩ | ⟨-, -, htoks⟩
  · exact absurd hnil h.rest
  · have := h.moves
    omega
  · rw [htoks, h.after]

/-- What is read from a reader on comes behind the tokens that the steps up to it yield. -/
theorem LexStep.Reaches.exists_tokens (h : step.Reaches s s') (eof : κ) :
    ∃ pre, (Scan.run step eof s).lexed.tokens = pre ++ (Scan.run step eof s').lexed.tokens ∧
      s'.previous = pre.getLast?.or s.previous := by
  induction h with
  | refl => exact ⟨[], rfl, rfl⟩
  | @tail r r' _ hl ih =>
    obtain ⟨pre, htoks, hprev⟩ := ih
    refine ⟨pre ++ (step r).tokens, ?_, ?_⟩
    · rw [htoks, hl.tokens_run eof, List.append_assoc]
    · rw [hl.after]
      change (step r).tokens.getLast?.or r.previous = _
      rw [hprev, List.getLast?_append, Option.or_assoc]

/-- Every token of a clean scan but the last is yielded at a reader on its run. Where it is the
first that its step yields, the tokens before it are those read before. -/
theorem LexStep.Clean.exists_reader (h : step.Clean s) {pre post : List (Token κ)} {b : Token κ}
    (htoks : (Scan.run step eof s).lexed.tokens = pre ++ b :: post) (hb : b.kind ≠ eof) :
    ∃ r earlier later, step.Reaches s r ∧ r.cursor.rest ≠ [] ∧
      (step r).tokens = earlier ++ b :: later ∧
      (earlier = [] → r.previous = pre.getLast?.or s.previous ∧
        (Scan.run step eof r).lexed.tokens = b :: post) := by
  induction h generalizing pre with
  | @done s hd =>
    rw [Scan.run, hd] at htoks
    exfalso
    change [Token.ofText eof [] s.cursor.place] = pre ++ b :: post at htoks
    rcases List.append_eq_singleton_iff.mp htoks.symm with ⟨-, hnil⟩ | ⟨-, hnil⟩
    · exact hb (by rw [(List.cons.inj hnil).1]; rfl)
    · cases hnil
  | @more s s' hl _ ih =>
    have hrun := hl.tokens_run eof
    rw [htoks] at hrun
    rcases List.append_eq_append_iff.mp hrun with ⟨more, hmore, hrest⟩ | ⟨more, hmore, hrest⟩
    · cases more with
      | nil =>
        -- the step's tokens end right before this one
        rw [List.append_nil] at hmore
        rw [List.nil_append] at hrest
        obtain ⟨r, earlier, later, hr, hne, hsteps, hfirst⟩ := @ih [] hrest.symm
        refine ⟨r, earlier, later, .head hl hr, hne, hsteps, ?_⟩
        intro hnil
        obtain ⟨hprev, hpost⟩ := hfirst hnil
        refine ⟨?_, hpost⟩
        rw [hprev, hl.after, ← hmore]
        rfl
      | cons c more =>
        rw [List.cons_append, List.cons.injEq] at hrest
        obtain ⟨rfl, hpost⟩ := hrest
        refine ⟨s, pre, more, .refl, hl.rest, hmore, ?_⟩
        rintro rfl
        refine ⟨by simp, ?_⟩
        rw [hl.tokens_run eof, hmore, hpost]
        rfl
    · obtain ⟨r, earlier, later, hr, hne, hsteps, hfirst⟩ := ih hrest
      refine ⟨r, earlier, later, .head hl hr, hne, hsteps, ?_⟩
      intro hnil
      obtain ⟨hprev, hpost⟩ := hfirst hnil
      refine ⟨?_, hpost⟩
      rw [hprev, hl.after, hmore, List.getLast?_append]
      cases more.getLast? with
      | none => rfl
      | some last => rfl

end

end DiagramLint
