-- The tokens of a text with a heading. A lexer passes over the lines above
-- the header line with nothing but line ends, reads the header word as its
-- first token, and finds every other token behind the heading.
import DiagramLint.Proofs.Header.Line
import DiagramLint.Proofs.Lexing.Scan

namespace DiagramLint

open Text

/-! ## What comes before the header word -/

/-- White space and whole comments, as a lexer meets them. -/
inductive Preamble : Text → Prop where
  | nil : Preamble []
  | space (c : Char) (rest : Text) (hc : isWhiteSpace c = true) (h : Preamble rest) :
    Preamble (c :: rest)
  | comment (body rest : Text) (hb : '\n' ∉ body) (h : Preamble ('\n' :: rest)) :
    Preamble ('%' :: '%' :: (body ++ '\n' :: rest))

theorem Preamble.spaces {a b : Text} (ha : ∀ c ∈ a, isWhiteSpace c = true) (hb : Preamble b) :
    Preamble (a ++ b) := by
  induction a with
  | nil => exact hb
  | cons c rest ih =>
    exact .space c _ (ha c List.mem_cons_self) (ih fun d hd => ha d (List.mem_cons_of_mem _ hd))

/-- A line that detection passes over is blank, or a comment behind white space. -/
theorem blank_or_comment {line : Text} (h : significant line = false) :
    (∀ c ∈ line, isWhiteSpace c = true) ∨
      ∃ lead body, line = lead ++ '%' :: '%' :: body ∧ ∀ c ∈ lead, isWhiteSpace c = true := by
  have hsplit : line = line.takeWhile isWhiteSpace ++ line.dropWhile isWhiteSpace :=
    List.takeWhile_append_dropWhile.symm
  have hlead : ∀ c ∈ line.takeWhile isWhiteSpace, isWhiteSpace c = true :=
    fun c hc => List.mem_takeWhile_imp hc
  obtain ⟨gone, hgone, hblank⟩ := exists_trimEnd (line.dropWhile isWhiteSpace)
  change line.dropWhile isWhiteSpace = trim line ++ gone at hgone
  simp only [significant, Bool.and_eq_false_iff, Bool.not_eq_false', List.isEmpty_iff] at h
  rcases h with h | h
  · left
    rw [h, List.nil_append] at hgone
    intro c hc
    rw [hsplit, hgone] at hc
    rcases List.mem_append.mp hc with hc | hc
    · exact hlead c hc
    · exact hblank c hc
  · right
    obtain ⟨more, hmore⟩ := List.isPrefixOf_iff_prefix.mp h
    refine ⟨line.takeWhile isWhiteSpace, more ++ gone, ?_, hlead⟩
    rw [← hmore] at hgone
    conv_lhs => rw [hsplit, hgone]
    rfl

theorem Passed.preamble {above : Text} (h : Passed above) {lead : Text} (hl : Preamble lead) :
    Preamble (above ++ lead) := by
  induction h with
  | nil => exact hl
  | line a b ha hs _ ih =>
    have hnext : Preamble ('\n' :: (b ++ lead)) := .space '\n' _ (by decide) ih
    rw [List.append_assoc, List.cons_append]
    rcases blank_or_comment hs with hblank | ⟨pre, body, rfl, hpre⟩
    · exact .spaces hblank hnext
    · rw [List.append_assoc]
      refine .spaces hpre (.comment body _ ?_ hnext)
      simp only [List.mem_append, List.mem_cons, not_or] at ha
      exact ha.2.2.2

theorem Heading.preamble (g : Heading) : Preamble (g.above ++ g.lead) := by
  have hlead := Preamble.spaces g.lead_blank .nil
  rw [List.append_nil] at hlead
  exact g.above_passed.preamble hlead

/-! ## Scanning it -/

variable {κ : Type}

/-- A step that moves over white space one character at a time, with line ends as its only tokens,
and over a comment in one go. -/
structure LexStep.Skims (newline : κ) (step : LexStep κ) : Prop where
  space : ∀ (s : Reader κ) (c : Char) (rest : Text), s.cursor.rest = c :: rest →
    isWhiteSpace c = true → (step s).cursor.rest.length < s.cursor.rest.length →
    (step s).cursor = s.cursor.next ∧ (step s).isHeader = false ∧
      ∀ tok ∈ (step s).tokens, tok.kind = newline
  comment : ∀ (s : Reader κ) (rest : Text), s.cursor.rest = '%' :: '%' :: rest →
    step s = .nothing s.cursor.takeLine.2

/-- The reader has met nothing but line ends. -/
structure Reader.Fresh (newline : κ) (s : Reader κ) : Prop where
  headerSeen : s.headerSeen = false
  previous : ∀ tok ∈ s.previous, tok.kind = newline

theorem Reader.Fresh.after {newline : κ} {s : Reader κ} (h : s.Fresh newline) {y : Yield κ}
    (hy : y.isHeader = false) (ht : ∀ tok ∈ y.tokens, tok.kind = newline) :
    (s.after y).Fresh newline where
  headerSeen := by
    rw [Reader.after, h.headerSeen, hy]
    rfl
  previous := by
    intro tok hm
    rw [Reader.after, Option.mem_def, Option.or_eq_some_iff] at hm
    rcases hm with hm | ⟨-, hm⟩
    · exact ht tok (List.mem_of_getLast? hm)
    · exact h.previous tok hm

theorem Cursor.takeLine_at {t before body rest : Text} {s : Cursor} (h : s.At t before)
    (hb : '\n' ∉ body) (hs : s.rest = body ++ '\n' :: rest) :
    s.takeLine.2.At t (before ++ body) := by
  have htake : s.rest.takeWhile (· != '\n') = body := by
    rw [hs, List.takeWhile_append_of_pos]
    · simp
    · intro c hc
      rw [bne_iff_ne]
      rintro rfl
      exact hb hc
  have hat := h.skip body.length
  rw [hs, List.take_left] at hat
  change (s.skip (s.rest.takeWhile (· != '\n')).length).At t (before ++ body)
  rw [htake]
  exact hat

/-- A scan yields line ends only, and stalls or goes on from a fresh reader behind the characters
`before`. -/
def Reader.Skimmed (newline : κ) (step : LexStep κ) (eof : κ) (t before : Text) (s : Reader κ) :
    Prop :=
  (∀ tok ∈ (Scan.run step eof s).lexed.tokens, tok.kind = newline) ∨
    ∃ nls s', (∀ tok ∈ nls, tok.kind = newline) ∧ s'.Fresh newline ∧ s'.cursor.At t before ∧
      (Scan.run step eof s).lexed.tokens = nls ++ (Scan.run step eof s').lexed.tokens

theorem Reader.Skimmed.step {newline : κ} {step : LexStep κ} {eof : κ} {t before : Text}
    {s : Reader κ} (hne : s.cursor.rest ≠ [])
    (h : (step s).cursor.rest.length < s.cursor.rest.length →
      (∀ tok ∈ (step s).tokens, tok.kind = newline) ∧
        (s.after (step s)).Skimmed newline step eof t before) :
    s.Skimmed newline step eof t before := by
  rcases Scan.tokens_run step eof s with ⟨hnil, -⟩ | ⟨-, -, htoks⟩ | ⟨-, hlt, htoks⟩
  · exact absurd hnil hne
  · left
    rw [htoks]
    exact fun tok hm => by cases hm
  · obtain ⟨hkinds, hall | ⟨nls, s', hn, hf, ha, hr⟩⟩ := h hlt
    · left
      intro tok hm
      rw [htoks] at hm
      rcases List.mem_append.mp hm with hm | hm
      · exact hkinds tok hm
      · exact hall tok hm
    · right
      refine ⟨(step s).tokens ++ nls, s', ?_, hf, ha, by rw [htoks, hr, List.append_assoc]⟩
      intro tok hm
      rcases List.mem_append.mp hm with hm | hm
      · exact hkinds tok hm
      · exact hn tok hm

/-- A scan skims over a preamble. -/
theorem LexStep.Skims.run {newline : κ} {step : LexStep κ} (h : step.Skims newline) (eof : κ)
    {pre : Text} (hp : Preamble pre) {t before x : Text} {s : Reader κ} (hs : s.Fresh newline)
    (hat : s.cursor.At t before) (hx : s.cursor.rest = pre ++ x) :
    s.Skimmed newline step eof t (before ++ pre) := by
  induction hp generalizing s before with
  | nil => exact Or.inr ⟨[], s, by simp, hs, by simpa using hat, rfl⟩
  | space c rest hc _ ih =>
    rw [List.cons_append] at hx
    refine Reader.Skimmed.step (by simp [hx]) ?_
    intro hlt
    obtain ⟨hcursor, hheader, hkinds⟩ := h.space s c _ hx hc hlt
    have hnext := hat.next
    rw [hx, List.take_succ_cons, List.take_zero] at hnext
    have hat' : (s.after (step s)).cursor.At t (before ++ [c]) := by
      rw [Reader.after, hcursor]
      exact hnext
    have hlater := ih (hs.after hheader hkinds) hat'
      (by rw [Reader.after, hcursor, Cursor.next_rest, hx]; rfl)
    rw [List.append_assoc] at hlater
    exact ⟨hkinds, hlater⟩
  | comment body rest hb _ ih =>
    have hbody : '\n' ∉ '%' :: '%' :: body := by simpa using hb
    have hx' : s.cursor.rest = ('%' :: '%' :: body) ++ '\n' :: (rest ++ x) := by simpa using hx
    refine Reader.Skimmed.step (by simp [hx]) ?_
    intro hlt
    have hstep := h.comment s _ hx
    have hcursor : (s.after (step s)).cursor.At t (before ++ '%' :: '%' :: body) := by
      rw [Reader.after, hstep]
      exact Cursor.takeLine_at hat hbody hx'
    have hkinds : ∀ tok ∈ (step s).tokens, tok.kind = newline := by
      rw [hstep]
      exact fun tok hm => by cases hm
    have hleft : (s.after (step s)).cursor.rest = '\n' :: rest ++ x := by
      have heq := hcursor.text_eq
      rw [hat.text_eq, hx', List.append_assoc] at heq
      simpa using heq.symm
    have hlater := ih (hs.after (by rw [hstep]; rfl) hkinds) hcursor hleft
    rw [List.append_assoc] at hlater
    exact ⟨hkinds, hlater⟩

/-! ## Tokens behind the heading -/

/-- A token on the header line or below, and past the heading if it is of a solid kind. -/
structure Heading.Trails (g : Heading) (solid : κ → Bool) (t : Text) (tok : Token κ) : Prop where
  line_le : g.line ≤ tok.line
  past : solid tok.kind = true → g.Past t tok.place

/-- How the tokens of a text with a heading begin: with line ends, and then, unless the scan
stalls, with the header. -/
inductive Heading.Leads (g : Heading) (solid : κ → Bool) (newline header : κ) (t : Text) :
    List (Token κ) → Prop where
  | stalled {ts : List (Token κ)} (h : ∀ tok ∈ ts, tok.kind = newline) :
    Leads g solid newline header t ts
  | headed {nls rest : List (Token κ)} {head : Token κ} (hn : ∀ tok ∈ nls, tok.kind = newline)
    (hk : head.kind = header) (hl : head.line = g.line) (hr : ∀ tok ∈ rest, g.Trails solid t tok) :
    Leads g solid newline header t (nls ++ head :: rest)

namespace Heading

variable {g : Heading} {t post : Text} {solid : κ → Bool} {ends : Char → Bool}

theorem Leads.token_cases {newline header : κ} {ts : List (Token κ)}
    (h : g.Leads solid newline header t ts) :
    ∀ tok ∈ ts, tok.kind = newline ∨ tok.kind = header ∨ g.Trails solid t tok := by
  intro tok hm
  cases h with
  | stalled hall => exact Or.inl (hall tok hm)
  | headed hn hk hl hr =>
    rcases List.mem_append.mp hm with hm | hm
    · exact Or.inl (hn tok hm)
    · rcases List.mem_cons.mp hm with rfl | hm
      · exact Or.inr (Or.inl hk)
      · exact Or.inr (Or.inr (hr tok hm))

/-- Between the header word and a solid token stands the character that ends the word. -/
theorem Opens.trails_of_found (hg : g.Opens t) (ht : t = g.text ++ post)
    (hpost : ∀ c ∈ post.head?, ends c = true)
    (hws : ∀ c, ends c = false → isWhiteSpace c = false) {tok : Token κ}
    (h : tok.Found solid ends t g.text) : g.Trails solid t tok := by
  obtain ⟨s, ⟨mid, hat⟩, hplace, hsolid⟩ := h
  rw [hat.place_eq] at hplace
  refine ⟨?_, ?_⟩
  · have := g.line_le_placeAfter (g.lead ++ g.word ++ mid)
    rwa [← List.append_assoc, ← text, ← hplace] at this
  · intro hk
    obtain ⟨c, hc, hends⟩ := hsolid hk
    obtain ⟨more, hmore⟩ := List.head?_eq_some_iff.mp hc
    have htext := hat.text_eq
    rw [List.append_assoc, hmore] at htext
    rw [hplace]
    refine hg.past_placeAfter htext ?_ (hws c hends)
    rintro rfl
    rw [ht, List.append_cancel_left_eq] at htext
    have := hpost c (by rw [htext]; rfl)
    rw [hends] at this
    cases this

/-- A token read behind the lines above the header line is on that line or below. -/
theorem line_le_of_found {x : Text} {tok : Token κ} (h : tok.Found solid ends t (g.above ++ x)) :
    g.line ≤ tok.line := by
  obtain ⟨s, ⟨mid, hat⟩, hplace, -⟩ := h
  have := g.line_le_placeAfter (x ++ mid)
  rwa [← List.append_assoc, ← hat.place_eq, ← hplace] at this

/-- A scan skims over what comes before the header word. -/
theorem scan_to_word {newline eof : κ} {step : LexStep κ} (ht : t = g.text ++ post)
    (hskims : step.Skims newline) :
    (∀ tok ∈ (Scan.run step eof (Reader.ofText t)).lexed.tokens, tok.kind = newline) ∨
      ∃ nls s, (∀ tok ∈ nls, tok.kind = newline) ∧ s.Fresh newline ∧
        s.cursor.At t (g.above ++ g.lead) ∧ s.cursor.rest = g.word ++ post ∧
        (Scan.run step eof (Reader.ofText t)).lexed.tokens =
          nls ++ (Scan.run step eof s).lexed.tokens := by
  have hsplit : t = (g.above ++ g.lead) ++ (g.word ++ post) := by
    rw [ht, text]
    simp
  have hfresh : (Reader.ofText t : Reader κ).Fresh newline := ⟨rfl, fun _ h => by cases h⟩
  rcases hskims.run eof g.preamble hfresh (Cursor.at_ofText t) hsplit with
    hall | ⟨nls, s, hnls, hs, hat, hrun⟩
  · exact Or.inl hall
  · rw [List.nil_append] at hat
    have hrest := hat.text_eq
    rw [hsplit] at hrest
    exact Or.inr ⟨nls, s, hnls, hs, hat, (List.append_cancel_left hrest).symm, hrun⟩

/-- The tokens of a scan whose step reads the header word as a header. -/
theorem Opens.leads {newline header eof : κ} {step : LexStep κ} (hg : g.Opens t)
    (ht : t = g.text ++ post) (hpost : ∀ c ∈ post.head?, ends c = true)
    (hws : ∀ c, ends c = false → isWhiteSpace c = false) (hskims : step.Skims newline)
    (hhonest : step.Honest solid ends) (heof : solid eof = false)
    (hword : ∀ s : Reader κ, s.Fresh newline → s.cursor.rest = g.word ++ post →
      ∃ tok, (step s).tokens = [tok] ∧ tok.kind = header ∧ tok.place = s.cursor.place ∧
        (step s).cursor = s.cursor.skip g.word.length) :
    g.Leads solid newline header t (Scan.run step eof (Reader.ofText t)).lexed.tokens := by
  rcases scan_to_word ht hskims with hall | ⟨nls, s, hnls, hs, hat, hrest, hrun⟩
  · exact .stalled hall
  · obtain ⟨tok, htok, hkind, hplace, hcursor⟩ := hword s hs hrest
    have hskip := hat.skip g.word.length
    rw [hrest, List.take_left, List.append_assoc] at hskip
    rw [hrun]
    rcases Scan.tokens_run step eof s with ⟨hnil, -⟩ | ⟨-, hle, -⟩ | ⟨hne, hlt, htoks⟩
    · rw [hrest, List.append_eq_nil_iff] at hnil
      exact absurd hnil.1 g.word_header.ne_nil
    · have := List.length_pos_iff.mpr g.word_header.ne_nil
      rw [hcursor, Cursor.skip_rest, List.length_drop, hrest, List.length_append] at hle
      omega
    · rw [htoks, htok]
      refine .headed hnls hkind ?_ ?_
      · have hline := congrArg Position.line (hplace.trans hat.place_eq)
        rw [g.placeAfter_lead] at hline
        exact hline
      · intro tok hm
        refine hg.trails_of_found ht hpost hws (hhonest.run heof _ ?_ tok hm)
        rw [Reader.after, hcursor]
        exact hskip.beyond

end Heading

end DiagramLint
