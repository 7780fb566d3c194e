-- Changes of a text that a lexer reads without an error. Where the readers
-- of the scan stand, the text is spelled from one to the next, so changes
-- between such places that are spelled leave a text that is spelled.
import DiagramLint.Proofs.Lexing.Clean
import DiagramLint.Proofs.Lexing.Spelling
import DiagramLint.Proofs.Repair.Placing

namespace DiagramLint

open Text

variable {κ μ : Type} {Piece : μ → Text → μ → Prop} {le : μ → μ → Prop} {step : LexStep κ}
  {modeOf : Text → Reader κ → μ} {t : Text} {solid : κ → Bool} {ends : Char → Bool}

/-! ## Stations of a scan -/

/-- A reader of the scan of a text has read this many bytes of it, and is in this mode. -/
def LexStep.Stands (step : LexStep κ) (modeOf : Text → Reader κ → μ) (t : Text) (n : Nat)
    (m : μ) : Prop :=
  ∃ s before, step.Reaches (Reader.ofText t) s ∧ s.cursor.At t before ∧ byteSize before = n ∧
    modeOf before s = m

/-- What a step leads over is spelled, and leads above the mode of the next reader. -/
def LexStep.Spells (Piece : μ → Text → μ → Prop) (le : μ → μ → Prop)
    (modeOf : Text → Reader κ → μ) (step : LexStep κ) : Prop :=
  ∀ before s s', step.Leads s s' → ∃ x e, s.cursor.rest = x ++ s'.cursor.rest ∧
    le (modeOf (before ++ x) s') e ∧ Spelling Piece (modeOf before s) x e

/-- What steps lead over is spelled. -/
theorem LexStep.Spells.reaches (h : step.Spells Piece le modeOf) (hg : Graded Piece le)
    {s s' : Reader κ} (hr : step.Reaches s s') (before : Text) :
    ∃ x e, s.cursor.rest = x ++ s'.cursor.rest ∧ le (modeOf (before ++ x) s') e ∧
      Spelling Piece (modeOf before s) x e := by
  induction hr using Relation.ReflTransGen.head_induction_on generalizing before with
  | refl => exact ⟨[], modeOf before s', rfl, by rw [List.append_nil]; exact hg.refl _, .nil _⟩
  | head hl _ ih =>
    obtain ⟨x, e, hx, hle, hfirst⟩ := h before _ _ hl
    obtain ⟨y, e₁, hy, hle₁, hrest⟩ := ih (before ++ x)
    obtain ⟨e₂, hle₂, hall⟩ := hg.spelling_append hfirst hle hrest
    refine ⟨x ++ y, e₂, ?_, ?_, hall⟩
    · rw [hx, hy, List.append_assoc]
    · rw [← List.append_assoc]
      exact hg.trans hle₁ hle₂

/-- The places of the readers of a clean scan are stations. -/
theorem LexStep.Clean.stations (hc : step.Clean (Reader.ofText t)) (hh : step.Honest solid ends)
    (hs : step.Spells Piece le modeOf) (hg : Graded Piece le) :
    Stations Piece le t (step.Stands modeOf t) where
  boundary := by
    rintro n m ⟨s, before, -, hat, rfl, -⟩
    exact ⟨before, s.cursor.rest, hat.text_eq, rfl⟩
  ends := by
    obtain ⟨e, hr, he⟩ := hc.reaches_end
    obtain ⟨before, hat⟩ := hh.at_reaches (Cursor.at_ofText t) hr
    refine ⟨modeOf before e, e, before, hr, hat, ?_, rfl⟩
    have htext := hat.text_eq
    rw [he, List.append_nil] at htext
    rw [htext]
    rfl
  spells := by
    rintro n m n' m' ⟨s, before, hr, hat, rfl, rfl⟩ ⟨s', before', hr', hat', rfl, rfl⟩ hle
    obtain ⟨mid, rfl⟩ := prefix_of_byteSize_le (hat.text_eq.symm.trans hat'.text_eq) hle
    have hlength : s'.cursor.rest.length ≤ s.cursor.rest.length := by
      have h1 := congrArg List.length hat.text_eq
      have h2 := congrArg List.length hat'.text_eq
      simp only [List.length_append] at h1 h2
      omega
    obtain ⟨x, e, hx, hle', hspell⟩ := hs.reaches hg (hr.linear hr' hlength) before
    have hmid : mid = x := by
      have htext := hat.text_eq.symm.trans hat'.text_eq
      rw [hx, List.append_assoc, List.append_cancel_left_eq] at htext
      exact (List.append_cancel_right htext).symm
    refine ⟨e, hmid ▸ hle', ?_⟩
    rw [hat'.text_eq, slice_append, hmid]
    exact hspell

/-- On the run of a scan no reader stands inside of what one step leads over. -/
theorem LexStep.Stands.outside {s s' : Reader κ} {before x : Text} {k : Nat} {m : μ}
    (hk : step.Stands modeOf t k m) (hr : step.Reaches (Reader.ofText t) s)
    (hl : step.Leads s s') (hat : s.cursor.At t before) (hat' : s'.cursor.At t (before ++ x)) :
    k ≤ byteSize before ∨ byteSize (before ++ x) ≤ k := by
  obtain ⟨r, past, hreach, hpast, rfl, -⟩ := hk
  have hlength : ∀ {a b : Reader κ} {p q : Text}, a.cursor.At t p → b.cursor.At t q →
      b.cursor.rest.length ≤ a.cursor.rest.length → byteSize p ≤ byteSize q := by
    intro a b p q ha hb hle
    refine byteSize_le_of_isPrefix (List.prefix_of_prefix_length_le
      ⟨_, ha.text_eq.symm⟩ ⟨_, hb.text_eq.symm⟩ ?_)
    have h1 := congrArg List.length ha.text_eq
    have h2 := congrArg List.length hb.text_eq
    simp only [List.length_append] at h1 h2
    omega
  rcases Nat.le_total s.cursor.rest.length r.cursor.rest.length with hle | hle
  · exact .inl (hlength hpast hat hle)
  · rcases Relation.ReflTransGen.cases_head (hr.linear hreach hle) with rfl | ⟨next, hnext, hrest⟩
    · exact .inl (hlength hpast hat (Nat.le_refl _))
    · right
      rw [hnext.unique hl] at hrest
      exact hlength hat' hpast (Reaches.length_le hrest)

/-! ## Tokens and the readers before them -/

/-- Where a token of a text is read that is alone in its step: the reader before it, what was read
up to there, and what stands on the line before the token and from it on. -/
structure LexStep.Reads (step : LexStep κ) (eof : κ) (t : Text) (pre : List (Token κ))
    (tok : Token κ) (post : List (Token κ)) (s : Reader κ) (before lead ahead : Text) : Prop where
  reaches : step.Reaches (Reader.ofText t) s
  leads : step.Leads s (s.after (step s))
  cursor_at : s.cursor.At t before
  line_at : LineAt t before lead ahead
  ahead_isPrefix : ahead <+: s.cursor.rest
  image_isPrefix : tok.image.toList <+: ahead
  image_length : 0 < tok.image.length
  place_eq : tok.place = placeAfter before
  previous_eq : s.previous = pre.getLast?
  step_tokens : (step s).tokens = [tok]
  step_cursor : (step s).cursor = s.cursor.skip tok.image.toList.length
  tokens_behind : (Scan.run step eof (s.after (step s))).lexed.tokens = post

/-- A token is alone in the step of a reader, and is the next few characters of its line. -/
structure LexStep.Alone (step : LexStep κ) (s : Reader κ) (tok : Token κ) (n : Nat) : Prop where
  pos : 0 < n
  le_line : n ≤ s.cursor.restOfLine.length
  tokens : (step s).tokens = [tok]
  cursor : (step s).cursor = s.cursor.skip n
  token_eq : tok = Token.ofText tok.kind (s.cursor.rest.take n) s.cursor.place

section

variable {eof : κ} {pre post : List (Token κ)} {tok : Token κ} {s : Reader κ}
  {before lead ahead : Text} {n : Nat}

/-- Such a token stands where the reader is, and the next reader is where it ends. -/
theorem LexStep.Alone.behind (h : step.Alone s tok n) :
    tok.place = s.cursor.place ∧ (step s).cursor.place = ⟨tok.line, tok.endColumn⟩ := by
  obtain ⟨-, hle, -, hcursor, htok⟩ := h
  have hplace : tok.place = s.cursor.place := by
    rw [htok]
    rfl
  have hline : tok.line = s.cursor.line := congrArg Position.line hplace
  have hcolumn : tok.column = s.cursor.column := congrArg Position.column hplace
  have hlength : tok.image.length = n := by
    rw [htok, Token.ofText, String.length_ofList, List.length_take]
    exact Nat.min_eq_left (hle.trans s.cursor.restOfLine_isPrefix.length_le)
  refine ⟨hplace, ?_⟩
  rw [hcursor, s.cursor.skip_place_inline (hle.trans s.cursor.restOfLine_length_le),
    Token.endColumn, hlength, hline, hcolumn]

/-- A reader that yields a token alone reads it. -/
theorem LexStep.Alone.reads (ha : step.Alone s tok n) (hh : step.Honest solid ends)
    (hc : step.Clean (Reader.ofText t)) (hr : step.Reaches (Reader.ofText t) s)
    (hne : s.cursor.rest ≠ []) (hprev : s.previous = pre.getLast?)
    (hpost : (Scan.run step eof s).lexed.tokens = tok :: post) :
    ∃ before lead ahead, step.Reads eof t pre tok post s before lead ahead := by
  obtain ⟨hpos, hle, htoks, hcursor, htok⟩ := ha
  have hleads := (hc.of_reaches hr).leads hne
  obtain ⟨before, hat⟩ := hh.at_reaches (Cursor.at_ofText t) hr
  rw [List.nil_append] at hat
  have hline : s.cursor.restOfLine ≠ [] := List.ne_nil_of_length_pos (by omega)
  obtain ⟨lead, ahead, hlineAt, hrest, hahead⟩ := hat.exists_lineAt hline
  have himage : tok.image.toList = s.cursor.rest.take n := by
    rw [htok]
    exact String.toList_ofList
  have hlength : tok.image.toList.length = n := by
    rw [himage, List.length_take]
    have := s.cursor.restOfLine_isPrefix.length_le
    omega
  refine ⟨before, lead, ahead, hr, hleads, hat, hlineAt, hahead, ?_, ?_, ?_, hprev, htoks, ?_, ?_⟩
  · rw [himage]
    refine List.prefix_of_prefix_length_le (List.take_prefix _ _) hahead ?_
    have := hrest.length_le
    rw [List.length_take]
    omega
  · rw [← String.length_toList]
    omega
  · rw [htok]
    exact hat.place_eq
  · rw [hcursor, hlength]
  · have hrun := hleads.tokens_run eof
    rw [hpost, htoks] at hrun
    exact (List.cons.inj hrun).2.symm

/-- Every token but the last is read where it is alone in its step. -/
theorem LexStep.Clean.exists_reads (hc : step.Clean (Reader.ofText t))
    (hh : step.Honest solid ends)
    (ht : (Scan.run step eof (Reader.ofText t)).lexed.tokens = pre ++ tok :: post)
    (heof : tok.kind ≠ eof)
    (halone : ∀ s, s.cursor.rest ≠ [] → (step s).errors = [] → tok ∈ (step s).tokens →
      ∃ n, step.Alone s tok n) :
    ∃ s before lead ahead, step.Reads eof t pre tok post s before lead ahead := by
  obtain ⟨s, earlier, later, hr, hne, hsteps, hfirst⟩ := hc.exists_reader ht heof
  obtain ⟨n, ha⟩ := halone s hne ((hc.of_reaches hr).leads hne).errors (by rw [hsteps]; simp)
  have hnil : earlier = [] := by
    rw [ha.tokens] at hsteps
    rcases List.append_eq_singleton_iff.mp hsteps.symm with ⟨hnil, -⟩ | ⟨-, habs⟩
    · exact hnil
    · cases habs
  obtain ⟨hprev, hpost⟩ := hfirst hnil
  exact ⟨s, ha.reads hh hc hr hne (by rw [hprev]; simp [Reader.ofText]) hpost⟩

namespace LexStep.Reads

variable {d : Diagnostic} {p : Proposal} {edit : Edit}

theorem take_image (h : step.Reads eof t pre tok post s before lead ahead) :
    ahead.take tok.image.toList.length = tok.image.toList :=
  (List.prefix_iff_eq_take.mp h.image_isPrefix).symm

theorem at_behind (h : step.Reads eof t pre tok post s before lead ahead) :
    (s.after (step s)).cursor.At t (before ++ tok.image.toList) := by
  have hskip := h.cursor_at.skip tok.image.toList.length
  rw [← List.prefix_iff_eq_take.mp (h.image_isPrefix.trans h.ahead_isPrefix)] at hskip
  change (step s).cursor.At t _
  rw [h.step_cursor]
  exact hskip

/-- A finding made at a column of the token, and its caret. -/
theorem caret (h : step.Reads eof t pre tok post s before lead ahead) {k : Nat}
    (hk : k ≤ tok.image.toList.length)
    (hd : d.place = ⟨max tok.line 1, max (tok.column + k) 1⟩) :
    (d.clampTo t).line = (placeAfter before).line ∧
      Caret.of? t (d.clampTo t) = some ⟨lead ++ ahead, lead.length + k⟩ := by
  have hplace := h.place_eq
  have hcolumn := h.line_at.column_eq
  rw [← hplace] at hcolumn
  have hahead : k ≤ ahead.length := Nat.le_trans hk h.image_isPrefix.length_le
  have hd' : d.place = ⟨max (placeAfter before).line 1, max (lead.length + 1 + k) 1⟩ := by
    rw [hd, ← hplace, ← hcolumn]
    rfl
  obtain ⟨h1, h2⟩ := h.line_at.clampTo hahead hd'
  exact ⟨h1, h.line_at.caret hahead h1 h2⟩

/-- A span from the start of a token to its end is the range of the token. -/
theorem resolve_replace (h : step.Reads eof t pre tok post s before lead ahead) (newText : Text) :
    (Edit.replaceSpan (placeAfter before).line (lead.length + 1) tok.image.toList.length
      newText).resolve t =
        ⟨Text.byteSize before, Text.byteSize (before ++ tok.image.toList)⟩ := by
  have hrange := h.line_at.resolve_replaceSpan (k := 0) (n := tok.image.toList.length)
    (by rw [Nat.zero_add]; exact h.image_isPrefix.length_le) newText
  rwa [Nat.zero_add, h.take_image, List.take_zero, List.append_nil] at hrange

/-- What a finding about a whole token replaces is the token. -/
theorem edit_of_token (h : step.Reads eof t pre tok post s before lead ahead)
    {replacement : Text} (hplace : d.place = ⟨max tok.line 1, max tok.column 1⟩)
    (hwidth : d.length = some (max tok.width 1))
    (hp : replaceToken replacement t (d.clampTo t) = .ok (some p)) (he : edit ∈ p.edits) :
    edit = .replaceSpan (placeAfter before).line (lead.length + 1) tok.image.toList.length
      replacement := by
  obtain ⟨c, hc, -, rfl⟩ := replaceToken_eq_some hp
  have hlength : (d.clampTo t).spanLength = tok.image.toList.length := by
    have hpos := h.image_length
    simp only [Diagnostic.clampTo, Diagnostic.spanLength, hwidth, Option.getD_some, Token.width,
      String.length_toList]
    omega
  obtain ⟨hline, hcaret⟩ := h.caret (k := 0) (Nat.zero_le _) hplace
  rw [hcaret, Option.some.injEq] at hc
  have hspan : c.spanned (d.clampTo t) = tok.image.toList := by
    rw [← hc, Caret.spanned, Caret.ahead, hlength, Nat.add_zero, List.drop_left]
    exact h.take_image
  rw [List.mem_singleton.mp he, hline, hspan, ← hc]
  rfl

end LexStep.Reads

end

/-! ## Readers as modes -/

theorem graded_eq : Graded Piece (· = ·) where
  refl _ := rfl
  trans := Eq.trans
  mono := by
    rintro m a e m' hp rfl
    exact ⟨e, rfl, .single hp⟩

/-- The readers of a run can be the modes between which a text is spelled, if what a step reads is
a piece. -/
theorem LexStep.spells_of_steps {Piece : Reader κ → Text → Reader κ → Prop}
    (h : ∀ s s', step.Leads s s' → ∃ x, s.cursor.rest = x ++ s'.cursor.rest ∧ Piece s x s') :
    step.Spells Piece (· = ·) fun _ s => s := by
  intro before s s' hl
  obtain ⟨x, hx, hp⟩ := h s s' hl
  exact ⟨x, s', hx, rfl, .single hp⟩

/-! ## Changes between stations -/

/-- A change right from one station to another. -/
theorem Mends.of_tight {At : Nat → μ → Prop} {c : Change} {m m' e : μ} (h : At c.1.start m)
    (h' : At c.1.stop m') (hle : le m' e) (hs : Spelling Piece m c.2 e) :
    Mends Piece le t At c c.1.start c.1.stop := by
  have hself : ∀ n, t.slice n n = [] := fun n => by simp [slice]
  refine ⟨Nat.le_refl _, Nat.le_refl _, m, m', e, h, h', hle, ?_⟩
  rw [hself, hself, List.nil_append, List.append_nil]
  exact hs

/-- A change with the stations it is made between: right from the one to the other, or inside of
what one step leads over, where the first station decides which characters give way. -/
inductive Cell (Piece : μ → Text → μ → Prop) (le : μ → μ → Prop) (t : Text)
    (At : Nat → μ → Prop) (place : Nat → ByteRange) (c : Change) : Nat → Nat → Prop where
  | tight (h : Mends Piece le t At c c.1.start c.1.stop) :
    Cell Piece le t At place c c.1.start c.1.stop
  | inside {n n' : Nat} (h : Mends Piece le t At c n n') (hlt : c.1.start < c.1.stop)
    (hin : ∀ {k m}, At k m → k ≤ n ∨ n' ≤ k) (hp : c.1 = place n) :
    Cell Piece le t At place c n n'

section

variable {At : Nat → μ → Prop} {place : Nat → ByteRange} {c d : Change} {n n' k k' : Nat}

theorem Cell.mends (h : Cell Piece le t At place c n n') : Mends Piece le t At c n n' := by
  cases h with
  | tight h => exact h
  | inside h => exact h

/-- The cell of a change ends before that of a later change starts. -/
theorem Cell.le_of_stop_le (hc : Cell Piece le t At place c n n')
    (hd : Cell Piece le t At place d k k') (hle : c.1.stop ≤ d.1.start) : n' ≤ k := by
  have hcm := hc.mends
  have hdm := hd.mends
  obtain ⟨mc, mc', -, hatc, hatc', -⟩ := hcm.spells
  obtain ⟨md, md', -, hatd, hatd', -⟩ := hdm.spells
  have h1 := hcm.le_start
  have h2 := hcm.stop_le
  have h3 := hdm.le_start
  have h4 := hdm.stop_le
  cases hc with
  | tight =>
    cases hd with
    | tight => exact hle
    | inside _ hlt hin _ =>
      have := hin hatc'
      omega
  | inside _ hlt hin hp =>
    have h5 := hin hatd
    cases hd with
    | tight => omega
    | inside _ hlt' hin' hp' =>
      have h6 := hin' hatc
      by_cases heq : n = k
      · -- both change the same characters
        rw [← heq, ← hp] at hp'
        rw [hp'] at hle
        omega
      · omega

theorem mendsFrom_of_cells (place : Nat → ByteRange) {changes : List Change}
    (ho : changes.Pairwise fun a b => a.1.stop ≤ b.1.start)
    (hn : ∀ c ∈ changes, ∀ k k', Cell Piece le t At place c k k' → n ≤ k)
    (hc : ∀ c ∈ changes, ∃ k k', Cell Piece le t At place c k k') :
    MendsFrom Piece le t At n changes := by
  induction changes generalizing n with
  | nil => exact .nil n
  | cons c rest ih =>
    obtain ⟨hfirst, hrest⟩ := List.pairwise_cons.mp ho
    obtain ⟨k, k', hcell⟩ := hc c List.mem_cons_self
    refine .cons (hn c List.mem_cons_self k k' hcell) hcell.mends (ih hrest ?_ ?_)
    · exact fun d hd l l' hcell' => hcell.le_of_stop_le hcell' (hfirst d hd)
    · exact fun d hd => hc d (List.mem_cons_of_mem _ hd)

end

/-- Edits that do not collide, each with its cell among the readers of a clean scan, leave a text
that is spelled. -/
theorem Stations.spells_edits (hst : Stations Piece le t (step.Stands modeOf t))
    (hg : Graded Piece le) (place : Nat → ByteRange) {edits : List Edit}
    (ha : Separate (t.changes edits))
    (hm : ∀ edit ∈ edits, ∃ n n', Cell Piece le t (step.Stands modeOf t) place
      (edit.resolve t, edit.newText) n n') :
    ∃ last e, step.Stands modeOf t t.byteSize last ∧ le last e ∧
      Spelling Piece (modeOf [] (Reader.ofText t)) (t.splice edits) e := by
  have hf := fitting_changes t edits
  have hperm := inOrder_perm (t.changes edits)
  have hstart : step.Stands modeOf t 0 (modeOf [] (Reader.ofText t)) :=
    ⟨_, [], .refl, Cursor.at_ofText t, rfl, rfl⟩
  refine hst.spells_splice hg (mendsFrom_of_cells place (ha.inOrder_stop_le hf)
    (fun _ _ _ _ _ => Nat.zero_le _) ?_) (hf.perm hperm.symm) hstart (hg.refl _)
  intro c hc
  obtain ⟨edit, hedit, rfl⟩ := List.mem_map.mp (hperm.mem_iff.mp hc)
  exact hm edit hedit

end DiagramLint
