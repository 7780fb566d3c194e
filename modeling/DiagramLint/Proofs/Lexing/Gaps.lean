-- Between two neighbouring tokens of a clean scan there are only blanks: a
-- step that yields nothing passes a blank or a comment, and behind a comment
-- a line end comes next. So what stands before a token on its line is known
-- from the token before it.
import DiagramLint.Proofs.Lexing.Clean

namespace DiagramLint

variable {κ : Type}

namespace LexStep

/-- A step that yields nothing passes a blank or the rest of its line; a line feed is yielded as a
line end. -/
structure Parts (newline : κ) (step : LexStep κ) : Prop where
  silent : ∀ s s' : Reader κ, step.Leads s s' → (step s).tokens = [] →
    (∃ c, s.cursor.rest = c :: s'.cursor.rest ∧ Cursor.isBlankChar c = true) ∨
      s'.cursor.rest = s.cursor.rest.dropWhile (· != '\n')
  lineFeed : ∀ (s : Reader κ) (rest : Text), s.cursor.rest = '\n' :: rest →
    ∃ tok, (step s).tokens = [tok] ∧ tok.kind = newline

variable {step : LexStep κ} {newline eof : κ} {s s' : Reader κ}

theorem Parts.silent_blank (h : step.Parts newline) (hl : step.Leads s s')
    (hnone : (step s).tokens = []) {tok : Token κ} {post : List (Token κ)}
    (hc : step.Clean s') (htoks : (Scan.run step eof s').lexed.tokens = tok :: post)
    (hk : tok.kind ≠ newline) (heof : tok.kind ≠ eof) :
    ∃ c, s.cursor.rest = c :: s'.cursor.rest ∧ Cursor.isBlankChar c = true := by
  rcases h.silent s s' hl hnone with hblank | hline
  · exact hblank
  · -- behind a comment the text ends, or its line does
    exfalso
    cases hrest : s'.cursor.rest with
    | nil =>
      rw [Scan.run, hrest] at htoks
      exact heof (by rw [← (List.cons.inj htoks).1]; rfl)
    | cons c rest =>
      rw [hrest] at hline
      have hstop := Cursor.head?_of_dropWhile (x := c :: rest) (y := [])
        (by rw [← hline, List.append_nil]) rfl
      rw [bne_eq_false_iff_eq] at hstop
      obtain ⟨line, hline, hkind⟩ := h.lineFeed s' rest (by rw [hrest, hstop])
      have hrun := (hc.leads (by rw [hrest]; exact List.cons_ne_nil _ _)).tokens_run eof
      rw [htoks, hline] at hrun
      exact hk (by rw [(List.cons.inj hrun).1, hkind])

/-- From a reader whose next token is known, blanks lead to the reader that yields it. -/
theorem Clean.exists_next (h : step.Parts newline) (hc : step.Clean s) {tok : Token κ}
    {post : List (Token κ)} (htoks : (Scan.run step eof s).lexed.tokens = tok :: post)
    (hk : tok.kind ≠ newline) (heof : tok.kind ≠ eof) :
    ∃ s' blanks later, step.Reaches s s' ∧ s'.cursor.rest ≠ [] ∧ s'.previous = s.previous ∧
      s.cursor.rest = blanks ++ s'.cursor.rest ∧ (∀ c ∈ blanks, Cursor.isBlankChar c = true) ∧
      (step s').tokens = tok :: later ∧ (Scan.run step eof s').lexed.tokens = tok :: post := by
  induction hc with
  | @done s hd =>
    rw [Scan.run, hd] at htoks
    exact absurd (by rw [← (List.cons.inj htoks).1]; rfl) heof
  | @more s s' hl hc ih =>
    have hrun := hl.tokens_run eof
    rw [htoks] at hrun
    cases hsteps : (step s).tokens with
    | nil =>
      rw [hsteps, List.nil_append] at hrun
      obtain ⟨c, hcons, hblank⟩ := h.silent_blank hl hsteps hc hrun.symm hk heof
      obtain ⟨s'', blanks, later, hr, hne, hprev, hrest, hblanks, htok, hrun'⟩ := ih hrun.symm
      refine ⟨s'', c :: blanks, later, .head hl hr, hne, ?_, by rw [hcons, hrest]; rfl, ?_, htok,
        hrun'⟩
      · rw [hprev, hl.after, Reader.after, hsteps]
        rfl
      · intro d hd
        rcases List.mem_cons.mp hd with rfl | hd
        · exact hblank
        · exact hblanks d hd
    | cons first later =>
      rw [hsteps, List.cons_append, List.cons.injEq] at hrun
      refine ⟨s, [], later, .refl, hl.rest, rfl, rfl, by simp, ?_, htoks⟩
      rw [hsteps, hrun.1]

/-- What was read up to the reader that blanks lead to. -/
theorem Honest.at_next {solid : κ → Bool} {ends : Char → Bool} (h : step.Honest solid ends)
    {t before blanks : Text} (hat : s.cursor.At t before) (hr : step.Reaches s s')
    (hrest : s.cursor.rest = blanks ++ s'.cursor.rest) : s'.cursor.At t (before ++ blanks) := by
  obtain ⟨mid, hmid⟩ := h.at_reaches hat hr
  have hsame := hmid.text_eq
  rw [hat.text_eq, hrest, ← List.append_assoc, List.append_cancel_right_eq,
    List.append_cancel_left_eq] at hsame
  rw [hsame]
  exact hmid

/-- Two neighbouring tokens of a scan, the first of them alone in its step: the readers that yield
them, and the blanks between them. -/
structure Neighbours (step : LexStep κ) (eof : κ) (t : Text) (first tok : Token κ)
    (post : List (Token κ)) (r s : Reader κ) (blanks : Text) (later : List (Token κ)) : Prop where
  reaches : step.Reaches (Reader.ofText t) r
  leads : step.Leads r (r.after (step r))
  tokens : (step r).tokens = [first]
  reaches_next : step.Reaches (r.after (step r)) s
  rest_eq : (step r).cursor.rest = blanks ++ s.cursor.rest
  blanks_blank : ∀ c ∈ blanks, Cursor.isBlankChar c = true
  leads_next : step.Leads s (s.after (step s))
  tokens_next : (step s).tokens = tok :: later
  run_next : (Scan.run step eof s).lexed.tokens = tok :: post

theorem Clean.exists_neighbours {t : Text} (h : step.Parts newline)
    (hc : step.Clean (Reader.ofText t)) {pre post : List (Token κ)} {first tok : Token κ}
    (htoks : (Scan.run step eof (Reader.ofText t)).lexed.tokens = pre ++ first :: tok :: post)
    (hfirst : first.kind ≠ eof)
    (halone : ∀ r r' : Reader κ, step.Leads r r' → first ∈ (step r).tokens →
      (step r).tokens = [first])
    (hk : tok.kind ≠ newline) (heof : tok.kind ≠ eof) :
    ∃ r s blanks later, step.Neighbours eof t first tok post r s blanks later := by
  obtain ⟨r, earlier, later, hr, hne, hsteps, hrun⟩ := hc.exists_reader htoks hfirst
  have hleads := (hc.of_reaches hr).leads hne
  have hone := halone r _ hleads (by rw [hsteps]; simp)
  have hnil : earlier = [] := by
    rw [hone] at hsteps
    rcases List.append_eq_singleton_iff.mp hsteps.symm with ⟨hnil, -⟩ | ⟨-, habs⟩
    · exact hnil
    · cases habs
  have hnext := hleads.tokens_run eof
  rw [(hrun hnil).2, hone] at hnext
  have hreach := hr.tail hleads
  obtain ⟨s, blanks, later', hrs, hsne, -, hblank, hblanks, htok, hrun'⟩ :=
    (hc.of_reaches hreach).exists_next h (List.cons.inj hnext).2.symm hk heof
  exact ⟨r, s, blanks, later', hr, hleads, hone, hrs, hblank, hblanks,
    (hc.of_reaches (hreach.trans hrs)).leads hsne, htok, hrun'⟩

/-- What was read up to both of two neighbours. -/
theorem Neighbours.exists_at {solid : κ → Bool} {ends : Char → Bool} (hon : step.Honest solid ends)
    {t blanks : Text} {first tok : Token κ} {post later : List (Token κ)} {r s : Reader κ}
    (h : step.Neighbours eof t first tok post r s blanks later) {n : Nat}
    (hcursor : (step r).cursor = r.cursor.skip n) :
    ∃ before, r.cursor.At t before ∧
      s.cursor.At t (before ++ r.cursor.rest.take n ++ blanks) := by
  obtain ⟨before, hat⟩ := hon.at_reaches (Cursor.at_ofText t) h.reaches
  rw [List.nil_append] at hat
  have hskip := hat.skip n
  rw [← hcursor] at hskip
  exact ⟨before, hat, hon.at_next (s := r.after (step r)) hskip h.reaches_next h.rest_eq⟩

end LexStep

end DiagramLint
