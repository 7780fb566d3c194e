-- What a lexer reads stands in the text: the cursor is always at the place
-- behind the characters read so far, so every token a step yields is found
-- at the place it names, and so is every token of a whole scan.
import DiagramLint.Lexing.Scan
import DiagramLint.Proofs.Text.Places
import DiagramLint.Proofs.Text.Words

namespace DiagramLint

/-! ## Cursors in a text -/

/-- The cursor has read the characters `before` of a text. -/
structure Cursor.At (t before : Text) (s : Cursor) : Prop where
  text_eq : t = before ++ s.rest
  place_eq : s.place = placeAfter before

namespace Cursor

variable {t before : Text} {s : Cursor}

theorem at_ofText (t : Text) : At t [] (ofText t) := ⟨rfl, rfl⟩

theorem At.next (h : s.At t before) : s.next.At t (before ++ s.rest.take 1) := by
  obtain ⟨rest, line, column⟩ := s
  obtain ⟨rfl, hplace⟩ := h
  cases rest with
  | nil => exact ⟨by simp [Cursor.next], by simpa [Cursor.next] using hplace⟩
  | cons c rest =>
    have hafter : placeAfter (before ++ [c]) = (placeAfter before).advance c := by
      rw [placeAfter, List.foldl_append]
      rfl
    refine ⟨?_, ?_⟩
    · rw [next_rest]
      simp
    · rw [List.take_succ_cons, List.take_zero, hafter, ← hplace]
      by_cases hc : c = '\n'
      · simp [Cursor.next, Position.advance, place, hc]
      · simp [Cursor.next, Position.advance, place, hc]

theorem At.skip (h : s.At t before) (n : Nat) : (s.skip n).At t (before ++ s.rest.take n) := by
  induction n generalizing s before with
  | zero => simpa [Cursor.skip] using h
  | succ n ih =>
    have hn := ih h.next
    have hcut : s.rest.take (n + 1) = s.rest.take 1 ++ s.next.rest.take n := by
      rw [next_rest, ← List.take_add, Nat.add_comm]
    rw [List.append_assoc, ← hcut] at hn
    exact hn

/-- The cursor is at the characters `before` or somewhere behind them. -/
def Beyond (t before : Text) (s : Cursor) : Prop := ∃ mid, s.At t (before ++ mid)

theorem At.beyond (h : s.At t before) : s.Beyond t before :=
  ⟨[], by simpa using h⟩

theorem Beyond.trans {mid : Text} (h : s.Beyond t (before ++ mid)) : s.Beyond t before := by
  obtain ⟨more, h⟩ := h
  exact ⟨mid ++ more, by simpa using h⟩

theorem Beyond.skip (h : s.Beyond t before) (n : Nat) : (s.skip n).Beyond t before := by
  obtain ⟨mid, h⟩ := h
  exact ⟨mid ++ s.rest.take n, by simpa using h.skip n⟩

theorem Beyond.next (h : s.Beyond t before) : s.next.Beyond t before := h.skip 1

/-! ## The rest of a line -/

theorem head?_restOfLine {s : Cursor} {c : Char} {line : Text} (h : s.restOfLine = c :: line) :
    s.rest.head? = some c := by
  obtain ⟨gone, hgone, -⟩ := Text.exists_dropEndWhile (· == '\r') (s.rest.takeWhile (· != '\n'))
  obtain ⟨rest, hrest⟩ := List.takeWhile_prefix (l := s.rest) (· != '\n')
  change s.rest.takeWhile (· != '\n') = s.restOfLine ++ gone at hgone
  rw [← hrest, hgone, h]
  rfl

theorem exists_restOfLine {s : Cursor} {c : Char} {rest : Text} (h : s.rest = c :: rest)
    (hn : c ≠ '\n') (hr : c ≠ '\r') : ∃ line, s.restOfLine = c :: line := by
  have htake : s.rest.takeWhile (· != '\n') = c :: rest.takeWhile (· != '\n') := by
    rw [h, List.takeWhile_cons]
    simp [hn]
  obtain ⟨gone, hgone, hreturn⟩ :=
    Text.exists_dropEndWhile (· == '\r') (s.rest.takeWhile (· != '\n'))
  change s.rest.takeWhile (· != '\n') = s.restOfLine ++ gone at hgone
  rw [htake] at hgone
  cases hline : s.restOfLine with
  | nil =>
    rw [hline, List.nil_append] at hgone
    have := hreturn c (by rw [← hgone]; exact List.mem_cons_self)
    exact absurd (by simpa using this) hr
  | cons d more =>
    rw [hline, List.cons_append, List.cons.injEq] at hgone
    exact ⟨more, by rw [hgone.1]⟩

end Cursor

/-! ## Tokens in a text -/

variable {κ : Type}

/-- The token was read at a cursor behind the characters `before`. One of a solid kind starts with
a character outside `ends`. -/
def Token.Found (solid : κ → Bool) (ends : Char → Bool) (t before : Text) (tok : Token κ) : Prop :=
  ∃ s : Cursor, s.Beyond t before ∧ tok.place = s.place ∧
    (solid tok.kind = true → ∃ c ∈ s.rest.head?, ends c = false)

/-- What a step yields was read behind the characters `before`, and so is what it leaves. -/
structure Yield.Found (solid : κ → Bool) (ends : Char → Bool) (t before : Text) (y : Yield κ) :
    Prop where
  cursor : y.cursor.Beyond t before
  tokens : ∀ tok ∈ y.tokens, tok.Found solid ends t before

/-- A step yields only what it read, whenever it moves on. -/
def LexStep.Honest (solid : κ → Bool) (ends : Char → Bool) (step : LexStep κ) : Prop :=
  ∀ (t before : Text) (s : Reader κ), s.cursor.At t before → s.cursor.rest ≠ [] →
    (step s).cursor.rest.length < s.cursor.rest.length → (step s).Found solid ends t before

section

variable {solid : κ → Bool} {ends : Char → Bool} {t before : Text}

theorem Yield.found_nothing {s : Cursor} (h : s.Beyond t before) :
    (Yield.nothing s : Yield κ).Found solid ends t before :=
  ⟨h, fun _ hm => by cases hm⟩

theorem Yield.found_error {e : LexError} {s : Cursor} (h : s.Beyond t before) :
    (Yield.error e s : Yield κ).Found solid ends t before :=
  ⟨h, fun _ hm => by cases hm⟩

theorem Token.found_ofText {kind : κ} {image : Text} {s : Cursor} (h : s.Beyond t before)
    (hs : solid kind = true → ∃ c ∈ s.rest.head?, ends c = false) :
    (Token.ofText kind image s.place).Found solid ends t before :=
  ⟨s, h, rfl, hs⟩

theorem Yield.found_token {tok : Token κ} {s : Cursor} (h : s.Beyond t before)
    (hs : tok.Found solid ends t before) : (Yield.token tok s).Found solid ends t before := by
  refine ⟨h, ?_⟩
  intro tok' hm
  rw [List.mem_singleton.mp hm]
  exact hs

/-- The rest of a line as a token of some kind, as keywords take it along. -/
def Cursor.trailingToken (kind : κ) (s : Cursor) : List (Token κ) × Cursor :=
  let s := s.skipBlanks
  if s.atLineEnd then ([], s)
  else
    let (text, after) := s.takeLine
    ([Token.ofText kind text.trimEnd s.place], after)

theorem Cursor.Beyond.trailingToken {s : Cursor} (h : s.Beyond t before) {kind : κ}
    (hk : solid kind = false) :
    (s.trailingToken kind).2.Beyond t before ∧
      ∀ tok ∈ (s.trailingToken kind).1, tok.Found solid ends t before := by
  have hskip : s.skipBlanks.Beyond t before := h.skip _
  unfold Cursor.trailingToken
  dsimp only
  split
  · exact ⟨hskip, fun tok hm => by cases hm⟩
  · refine ⟨hskip.skip _, ?_⟩
    intro tok hm
    rw [List.mem_singleton.mp hm]
    exact Token.found_ofText hskip fun hs => by rw [hk] at hs; cases hs

end

/-! ## Whole scans -/

theorem Scan.lexed_after (first : Lexed κ) (s : Scan κ) :
    (s.after first).lexed = first ++ s.lexed := by
  cases s <;> rfl

theorem Scan.tokens_after (first : Lexed κ) (s : Scan κ) :
    (s.after first).lexed.tokens = first.tokens ++ s.lexed.tokens := by
  rw [lexed_after]
  rfl

theorem Scan.errors_after (first : Lexed κ) (s : Scan κ) :
    (s.after first).lexed.errors = first.errors ++ s.lexed.errors := by
  rw [lexed_after]
  rfl

theorem Scan.result_eq_ok_iff {s : Scan κ} {l : Lexed κ} : s.result = .ok l ↔ s = .finished l := by
  cases s <;> simp [result]

/-- The loop, one step at a time: the text is used up, the scan stalls, or a step leads on. -/
theorem Scan.tokens_run (step : LexStep κ) (eof : κ) (s : Reader κ) :
    s.cursor.rest = [] ∧ (run step eof s).lexed.tokens = [Token.ofText eof [] s.cursor.place] ∨
      s.cursor.rest ≠ [] ∧ s.cursor.rest.length ≤ (step s).cursor.rest.length ∧
        (run step eof s).lexed.tokens = [] ∨
      s.cursor.rest ≠ [] ∧ (step s).cursor.rest.length < s.cursor.rest.length ∧
        (run step eof s).lexed.tokens =
          (step s).tokens ++ (run step eof (s.after (step s))).lexed.tokens := by
  rw [run]
  split
  · rename_i hrest
    exact Or.inl ⟨hrest, rfl⟩
  · rename_i hrest
    have hne : s.cursor.rest ≠ [] := by simp [hrest]
    right
    dsimp only
    split
    · rename_i hlt
      exact Or.inr ⟨hne, hlt, Scan.tokens_after _ _⟩
    · rename_i hlt
      exact Or.inl ⟨hne, Nat.not_lt.mp hlt, rfl⟩

/-- A step that moves on gives its tokens before those of the rest. -/
theorem Scan.tokens_run_of_lt {step : LexStep κ} {s : Reader κ} (eof : κ)
    (h : (step s).cursor.rest.length < s.cursor.rest.length) :
    (run step eof s).lexed.tokens =
      (step s).tokens ++ (run step eof (s.after (step s))).lexed.tokens := by
  rcases Scan.tokens_run step eof s with ⟨hnil, -⟩ | ⟨-, hle, -⟩ | ⟨-, -, hmore⟩
  · rw [hnil, List.length_nil] at h
    omega
  · omega
  · exact hmore

/-- What holds of the tokens of every step, and of the end of the text, holds of all tokens. -/
theorem Scan.tokens_all {step : LexStep κ} {eof : κ} {P : Token κ → Prop}
    (hstep : ∀ s, ∀ tok ∈ (step s).tokens, P tok)
    (heof : ∀ place, P (Token.ofText eof [] place)) (s : Reader κ) :
    ∀ tok ∈ (Scan.run step eof s).lexed.tokens, P tok := by
  induction hn : s.cursor.rest.length using Nat.strongRecOn generalizing s with
  | ind n ih =>
    intro tok hm
    rcases Scan.tokens_run step eof s with ⟨-, htoks⟩ | ⟨-, -, htoks⟩ | ⟨-, hlt, htoks⟩
    · rw [htoks, List.mem_singleton] at hm
      rw [hm]
      exact heof _
    · rw [htoks] at hm
      cases hm
    · rw [htoks] at hm
      rcases List.mem_append.mp hm with hm | hm
      · exact hstep s tok hm
      · exact ih _ (hn ▸ hlt) (s.after (step s)) rfl tok hm

/-- What holds of the errors of every step holds of all errors. -/
theorem Scan.errors_all {step : LexStep κ} {eof : κ} {P : LexError → Prop}
    (hstep : ∀ s, ∀ e ∈ (step s).errors, P e) (s : Reader κ) :
    ∀ e ∈ (Scan.run step eof s).lexed.errors, P e := by
  induction hn : s.cursor.rest.length using Nat.strongRecOn generalizing s with
  | ind n ih =>
    intro e he
    rw [Scan.run] at he
    split at he
    · cases he
    · dsimp only at he
      split at he
      · rename_i hlt
        rw [Scan.errors_after] at he
        rcases List.mem_append.mp he with he | he
        · exact hstep s e he
        · exact ih _ (hn ▸ hlt) (s.after (step s)) rfl e he
      · cases he

/-- Every token of a scan stands behind the characters read before it started. -/
theorem LexStep.Honest.run {solid : κ → Bool} {ends : Char → Bool} {step : LexStep κ}
    (h : step.Honest solid ends) {eof : κ} (heof : solid eof = false) {t before : Text}
    (s : Reader κ) (hs : s.cursor.Beyond t before) :
    ∀ tok ∈ (Scan.run step eof s).lexed.tokens, tok.Found solid ends t before := by
  induction hn : s.cursor.rest.length using Nat.strongRecOn generalizing s with
  | ind n ih =>
    intro tok hm
    rcases Scan.tokens_run step eof s with ⟨-, htoks⟩ | ⟨-, -, htoks⟩ | ⟨hne, hlt, htoks⟩
    · rw [htoks, List.mem_singleton] at hm
      rw [hm]
      exact Token.found_ofText hs fun he => by rw [heof] at he; cases he
    · rw [htoks] at hm
      cases hm
    · obtain ⟨mid, hat⟩ := hs
      have hstep := h t (before ++ mid) s hat hne hlt
      rw [htoks] at hm
      rcases List.mem_append.mp hm with hm | hm
      · obtain ⟨s', hbeyond, hplace⟩ := hstep.tokens tok hm
        exact ⟨s', hbeyond.trans, hplace⟩
      · exact ih _ (hn ▸ hlt) (s.after (step s)) hstep.cursor.trans rfl tok hm

end DiagramLint
