-- Tokens laid over a text. From a cursor on, a text is made of tokens, of
-- blanks, of comments, and of the white space that a line ends with; a lexer
-- loses other characters only with an error. One step of a lexer puts its
-- tokens before those of the rest, and a whole scan covers the text.
import DiagramLint.Lexing.Quoted
import DiagramLint.Proofs.Lexing.Scan

namespace DiagramLint

variable {κ : Type}

/-! ## The rest of a line -/

namespace Cursor

/-- What is left of the line, carriage returns included. -/
def wholeLine (s : Cursor) : Text := s.rest.takeWhile (· != '\n')

theorem wholeLine_isPrefix (s : Cursor) : s.wholeLine <+: s.rest := List.takeWhile_prefix _

theorem newline_not_mem_wholeLine (s : Cursor) : '\n' ∉ s.wholeLine := by
  intro hm
  simpa using List.mem_takeWhile_imp hm

/-- The rest of a line ends in carriage returns, which the rest of the line leaves out. -/
theorem exists_wholeLine (s : Cursor) :
    ∃ returns, s.wholeLine = s.restOfLine ++ returns ∧ ∀ c ∈ returns, c = '\r' := by
  obtain ⟨returns, hline, hreturns⟩ := Text.exists_dropEndWhile (· == '\r') s.wholeLine
  exact ⟨returns, hline, fun c hc => by simpa using hreturns c hc⟩

theorem restOfLine_isPrefix_wholeLine (s : Cursor) : s.restOfLine <+: s.wholeLine := by
  obtain ⟨returns, hline, -⟩ := s.exists_wholeLine
  exact ⟨returns, hline.symm⟩

theorem restOfLine_isPrefix (s : Cursor) : s.restOfLine <+: s.rest :=
  s.restOfLine_isPrefix_wholeLine.trans s.wholeLine_isPrefix

theorem restOfLine_length_le (s : Cursor) : s.restOfLine.length ≤ s.wholeLine.length :=
  s.restOfLine_isPrefix_wholeLine.length_le

theorem newline_not_mem_restOfLine (s : Cursor) : '\n' ∉ s.restOfLine := by
  intro hm
  exact s.newline_not_mem_wholeLine (s.restOfLine_isPrefix_wholeLine.subset hm)

theorem getLast?_restOfLine (s : Cursor) : s.restOfLine.getLast? ≠ some '\r' := by
  intro hlast
  rw [restOfLine, lineRest, Text.dropEndWhile, List.getLast?_reverse] at hlast
  have hfirst := List.head?_dropWhile_not (· == '\r') (s.rest.takeWhile (· != '\n')).reverse
  simp [hlast] at hfirst

theorem take_eq_restOfLine (s : Cursor) {n : Nat} (h : n ≤ s.restOfLine.length) :
    s.rest.take n = s.restOfLine.take n := by
  obtain ⟨below, hbelow⟩ := s.restOfLine_isPrefix
  rw [← hbelow, List.take_append_of_le_length h]

/-- A sign that the line starts with is what is taken of its length. -/
theorem ofList_take_sign (s : Cursor) {sign : String} (h : sign.toList <+: s.restOfLine) :
    String.ofList (s.rest.take sign.length) = sign := by
  rw [← String.length_toList, ← List.prefix_iff_eq_take.mp (h.trans s.restOfLine_isPrefix),
    String.ofList_toList]

/-- Characters without a line feed are on the line, all but carriage returns at their end. -/
theorem length_le_restOfLine (s : Cursor) {x : Text} (h : x <+: s.rest) (hx : '\n' ∉ x)
    (hr : x.getLast? ≠ some '\r') : x.length ≤ s.restOfLine.length := by
  obtain ⟨returns, hline, hreturns⟩ := s.exists_wholeLine
  obtain ⟨below, hbelow⟩ := h
  have hpass : ∀ c ∈ x, (c != '\n') = true := by
    intro c hc
    simp only [bne_iff_ne, ne_eq]
    rintro rfl
    exact hx hc
  rw [wholeLine, ← hbelow, List.takeWhile_append_of_pos hpass] at hline
  rcases List.append_eq_append_iff.mp hline with ⟨more, hmore, -⟩ | ⟨extra, hextra, hrest⟩
  · rw [hmore, List.length_append]
    omega
  · rcases List.eq_nil_or_concat extra with rfl | ⟨some, c, rfl⟩
    · simp [hextra]
    · have hc : c = '\r' := hreturns c (by rw [hrest]; simp)
      rw [hextra, hc, List.concat_eq_append, ← List.append_assoc, List.getLast?_concat] at hr
      exact absurd rfl hr

theorem inline_length_le (s : Cursor) {x : Text} (h : x <+: s.rest)
    (hx : ∀ c ∈ x, c ≠ '\n' ∧ c ≠ '\r') : x.length ≤ s.restOfLine.length := by
  refine s.length_le_restOfLine h (fun hm => (hx _ hm).1 rfl) ?_
  intro hlast
  exact (hx _ (List.mem_of_getLast? hlast)).2 rfl

theorem takeWhile_length_le (s : Cursor) {p : Char → Bool} (hn : p '\n' = false)
    (hr : p '\r' = false) : (s.rest.takeWhile p).length ≤ s.restOfLine.length := by
  refine s.inline_length_le (List.takeWhile_prefix p) ?_
  intro c hc
  have hp := List.mem_takeWhile_imp hc
  constructor
  · rintro rfl
    rw [hn] at hp
    cases hp
  · rintro rfl
    rw [hr] at hp
    cases hp

/-- A character that ends no line is on its line. -/
theorem one_le_restOfLine {s : Cursor} {c : Char} {rest : Text} (h : s.rest = c :: rest)
    (hb : isBlankChar c = false) (hn : c ≠ '\n') : 1 ≤ s.restOfLine.length := by
  have hr : c ≠ '\r' := by
    rintro rfl
    cases hb
  obtain ⟨line, hline⟩ := exists_restOfLine h hn hr
  simp [hline]

/-- Moving on moves the place by the characters passed. -/
theorem skip_place (s : Cursor) (n : Nat) :
    (s.skip n).place = (s.rest.take n).foldl Position.advance s.place := by
  induction n generalizing s with
  | zero => rfl
  | succ n ih =>
    rw [skip, ih, next_rest]
    cases hrest : s.rest with
    | nil => simp [next, hrest]
    | cons c rest =>
      by_cases hc : c = '\n'
      · simp [next, hrest, hc, Position.advance, place]
      · simp [next, hrest, hc, Position.advance, place]

theorem skip_place_of_not_mem (s : Cursor) {n : Nat} (h : '\n' ∉ s.rest.take n)
    (hn : n ≤ s.rest.length) : (s.skip n).place = ⟨s.line, s.column + n⟩ := by
  rw [skip_place, foldl_advance_of_not_mem _ h, List.length_take, Nat.min_eq_left hn]
  rfl

theorem take_eq_wholeLine (s : Cursor) {n : Nat} (h : n ≤ s.wholeLine.length) :
    s.rest.take n = s.wholeLine.take n := by
  obtain ⟨below, hbelow⟩ := s.wholeLine_isPrefix
  rw [← hbelow, List.take_append_of_le_length h]

theorem newline_not_mem_take (s : Cursor) {n : Nat} (h : n ≤ s.wholeLine.length) :
    '\n' ∉ s.rest.take n := by
  rw [s.take_eq_wholeLine h]
  intro hm
  exact s.newline_not_mem_wholeLine (List.mem_of_mem_take hm)

theorem skip_place_inline (s : Cursor) {n : Nat} (h : n ≤ s.wholeLine.length) :
    (s.skip n).place = ⟨s.line, s.column + n⟩ :=
  s.skip_place_of_not_mem (s.newline_not_mem_take h) (h.trans s.wholeLine_isPrefix.length_le)

theorem skip_skip (s : Cursor) (m n : Nat) : (s.skip m).skip n = s.skip (m + n) := by
  induction m generalizing s with
  | zero => rw [Nat.zero_add]; rfl
  | succ m ih => rw [Nat.succ_add]; exact ih s.next

end Cursor

/-- The first of several signs that a line starts with is on the line. -/
theorem length_of_find?_startsWith {signs : List String} {line : Text} {sign : String}
    (h : (signs.find? fun a => line.startsWith a.toList) = some sign)
    (hs : ∀ a ∈ signs, 0 < a.length) : 0 < sign.length ∧ sign.length ≤ line.length := by
  refine ⟨hs sign (List.mem_of_find?_eq_some h), ?_⟩
  have hstart := List.find?_some h
  have hle := (List.isPrefixOf_iff_prefix.mp hstart).length_le
  rwa [String.length_toList] at hle

theorem Quoted.prepend_eq_closed {first image : Text} {q : Quoted}
    (h : q.prepend first = .closed image) : ∃ inner, q = .closed inner ∧ image = first ++ inner := by
  cases q with
  | closed inner =>
    cases h
    exact ⟨inner, rfl, rfl⟩
  | unterminated inner => cases h

/-- Text in quotes stays on its line and ends in its closing quotation mark. -/
theorem Quoted.read_closed {t image : Text} (h : read t = .closed image) :
    image <+: t ∧ '\n' ∉ image ∧ image.getLast? = some '"' := by
  fun_induction Quoted.read t generalizing image with
  | case1 => cases h
  | case2 rest ih =>
    obtain ⟨inner, hinner, rfl⟩ := prepend_eq_closed h
    obtain ⟨hpre, hline, hlast⟩ := ih hinner
    refine ⟨(List.prefix_append_right_inj ['\\', '"']).mpr hpre, ?_, ?_⟩
    · simpa using hline
    · rw [List.getLast?_append, hlast]
      rfl
  | case3 rest => cases h
  | case4 rest =>
    cases h
    exact ⟨⟨rest, rfl⟩, by decide, rfl⟩
  | case5 c rest _ hn hq ih =>
    obtain ⟨inner, hinner, rfl⟩ := prepend_eq_closed h
    obtain ⟨hpre, hline, hlast⟩ := ih hinner
    refine ⟨(List.prefix_append_right_inj [c]).mpr hpre, ?_, ?_⟩
    · have hne : '\n' ≠ c := fun he => hn he.symm
      simpa [hne] using hline
    · rw [List.getLast?_append, hlast]
      rfl

/-- Text in quotes is closed where it is, whatever comes behind it. -/
theorem Quoted.read_closed_append {t image : Text} (h : read t = .closed image) (more : Text) :
    read (image ++ more) = .closed image := by
  fun_induction Quoted.read t generalizing image with
  | case1 => cases h
  | case2 rest ih =>
    obtain ⟨inner, hinner, rfl⟩ := prepend_eq_closed h
    change (read (inner ++ more)).prepend ['\\', '"'] = _
    rw [ih hinner]
    rfl
  | case3 rest => cases h
  | case4 rest =>
    cases h
    rfl
  | case5 c rest hescaped hn hq ih =>
    obtain ⟨inner, hinner, rfl⟩ := prepend_eq_closed h
    obtain ⟨⟨behind, hrest⟩, -, hlast⟩ := read_closed hinner
    obtain ⟨d, inner, rfl⟩ := List.exists_cons_of_ne_nil
      (show inner ≠ [] by rintro rfl; cases hlast)
    rw [List.singleton_append, List.cons_append, List.cons_append, read, if_neg hn, if_neg hq,
      ← List.cons_append, ih hinner]
    · rfl
    · rintro x rfl heq
      obtain ⟨rfl, -⟩ := List.cons.inj heq
      exact hescaped _ rfl hrest.symm

/-! ## Tilings -/

/-- The next `n` characters belong to no token: a blank, or a comment up to the end of its line. -/
inductive Cursor.Gap (s : Cursor) : Nat → Prop where
  | blank {c : Char} (hc : s.rest.head? = some c) (hb : isBlankChar c = true) : s.Gap 1
  | comment (hc : ['%', '%'] <+: s.rest) : s.Gap s.wholeLine.length

/-- The next `m` characters are a token, and the cursor goes on behind `n` characters: a token on
one line, a line feed, or the free text that the rest of a line is, less the white space at its
end. -/
inductive Cursor.Lays (newline text : κ) (s : Cursor) : κ → Nat → Nat → Prop where
  | inline {kind : κ} {n : Nat} (hk : kind ≠ newline) (hn : 0 < n)
    (hle : n ≤ s.restOfLine.length) : s.Lays newline text kind n n
  | lineFeed (hc : s.rest.head? = some '\n') : s.Lays newline text newline 1 1
  | trailing (hb : s.atLineEnd = false) :
    s.Lays newline text text s.restOfLine.trimEnd.length s.wholeLine.length

/-- From a cursor on, the text is made of these tokens and of gaps. Other characters are lost only
where the text is `lossy`. -/
inductive Tiled (eof newline text : κ) (lossy : Prop) : Cursor → List (Token κ) → Prop where
  | done {s : Cursor} (hs : s.rest = []) :
    Tiled eof newline text lossy s [Token.ofText eof [] s.place]
  | gap {s : Cursor} {n : Nat} {toks : List (Token κ)} (hg : s.Gap n)
    (h : Tiled eof newline text lossy (s.skip n) toks) : Tiled eof newline text lossy s toks
  | token {s : Cursor} {kind : κ} {m n : Nat} {toks : List (Token κ)} (he : kind ≠ eof)
    (hl : s.Lays newline text kind m n) (h : Tiled eof newline text lossy (s.skip n) toks) :
    Tiled eof newline text lossy s (Token.ofText kind (s.rest.take m) s.place :: toks)
  | lost {s : Cursor} {toks : List (Token κ)} (hl : lossy) (n : Nat)
    (h : Tiled eof newline text lossy (s.skip n) toks) : Tiled eof newline text lossy s toks

section

variable {eof newline text : κ} {lossy : Prop} {s : Cursor} {toks : List (Token κ)}

theorem Tiled.blanks {n : Nat} (hn : n ≤ (s.rest.takeWhile Cursor.isBlankChar).length)
    (h : Tiled eof newline text lossy (s.skip n) toks) : Tiled eof newline text lossy s toks := by
  induction n generalizing s with
  | zero => exact h
  | succ n ih =>
    cases hrest : s.rest with
    | nil => simp [hrest] at hn
    | cons c rest =>
      rw [hrest, List.takeWhile_cons] at hn
      split at hn
      · rename_i hc
        have hnext : s.next.rest = rest := by rw [Cursor.next_rest, hrest]; rfl
        have hnext' : n ≤ (s.next.rest.takeWhile Cursor.isBlankChar).length := by
          rw [hnext]
          exact Nat.le_of_succ_le_succ hn
        exact .gap (.blank (by rw [hrest]; rfl) hc) (ih hnext' h)
      · cases hn

theorem Cursor.take_trimEnd (s : Cursor) :
    s.rest.take s.restOfLine.trimEnd.length = s.restOfLine.trimEnd := by
  obtain ⟨gone, hgone, -⟩ := Text.exists_trimEnd s.restOfLine
  have hpre : s.restOfLine.trimEnd <+: s.rest :=
    List.IsPrefix.trans ⟨gone, hgone.symm⟩ s.restOfLine_isPrefix
  exact (List.prefix_iff_eq_take.mp hpre).symm

/-- The rest of a line that a keyword takes along. -/
theorem Tiled.trailingToken (ht : text ≠ eof)
    (h : Tiled eof newline text lossy (s.trailingToken text).2 toks) :
    Tiled eof newline text lossy s ((s.trailingToken text).1 ++ toks) := by
  unfold Cursor.trailingToken at h ⊢
  dsimp only at h ⊢
  split
  · rename_i hb
    rw [if_pos hb] at h
    exact h.blanks (Nat.le_refl _)
  · rename_i hb
    rw [if_neg hb] at h
    have hlaid := Tiled.token ht (.trailing (by simpa using hb)) h
    rw [Cursor.take_trimEnd] at hlaid
    exact hlaid.blanks (Nat.le_refl _)

end

/-! ## Steps -/

/-- The step covers what it passes: its tokens are laid before those of the rest. -/
def Yield.Covers (eof newline text : κ) (s : Cursor) (y : Yield κ) : Prop :=
  ∀ (lossy : Prop) (toks : List (Token κ)), (y.errors ≠ [] → lossy) →
    Tiled eof newline text lossy y.cursor toks → Tiled eof newline text lossy s (y.tokens ++ toks)

/-- Every step that leads on covers what it passes. -/
def LexStep.Covers (eof newline text : κ) (step : LexStep κ) : Prop :=
  ∀ s : Reader κ, s.cursor.rest ≠ [] → (step s).cursor.rest.length < s.cursor.rest.length →
    (step s).Covers eof newline text s.cursor

/-- A step that moves on and covers what it passes. -/
structure Yield.Passes (eof newline text : κ) (s : Cursor) (y : Yield κ) : Prop where
  moves : ∃ n, 0 < n ∧ y.cursor = s.skip n
  covers : y.Covers eof newline text s

section

variable {eof newline text : κ} {s : Cursor} {n : Nat}

theorem Cursor.gap_of_percent {c : Char} {rest : Text} (h : s.rest = c :: rest)
    (hc : c = '%' ∧ rest.head? = some '%') : s.Gap s.wholeLine.length := by
  obtain ⟨rfl, hnext⟩ := hc
  obtain ⟨more, rfl⟩ := List.head?_eq_some_iff.mp hnext
  exact .comment ⟨more, h.symm⟩

theorem Cursor.Gap.pos (h : s.Gap n) : 0 < n := by
  cases h with
  | blank => exact Nat.one_pos
  | comment hc =>
    obtain ⟨rest, hrest⟩ := hc
    rw [Cursor.wholeLine, ← hrest]
    simp [List.takeWhile]

namespace Cursor.Lays

theorem trimEnd_ne_nil (hb : s.atLineEnd = false) : s.restOfLine.trimEnd ≠ [] := by
  intro hnil
  obtain ⟨gone, hgone, hwhite⟩ := Text.exists_trimEnd s.restOfLine
  rw [hnil, List.nil_append] at hgone
  have hblank : s.atLineEnd = true := by
    rw [Cursor.atLineEnd, hgone]
    exact List.all_eq_true.mpr hwhite
  rw [hb] at hblank
  cases hblank

theorem trimEnd_length_le (s : Cursor) : s.restOfLine.trimEnd.length ≤ s.restOfLine.length := by
  obtain ⟨gone, hgone, -⟩ := Text.exists_trimEnd s.restOfLine
  have hlen := congrArg List.length hgone
  rw [List.length_append] at hlen
  omega

theorem pos {kind : κ} {m n : Nat} (h : s.Lays newline text kind m n) : 0 < m := by
  cases h with
  | inline _ hn _ => exact hn
  | lineFeed => exact Nat.one_pos
  | trailing hb => exact List.length_pos_iff.mpr (trimEnd_ne_nil hb)

end Cursor.Lays

theorem Yield.passes_gap (h : s.Gap n) :
    (Yield.nothing (s.skip n) : Yield κ).Passes eof newline text s where
  moves := ⟨n, h.pos, rfl⟩
  covers := fun _ _ _ hrest => .gap h hrest

theorem Yield.passes_error (e : LexError) (hn : 0 < n) :
    (Yield.error e (s.skip n) : Yield κ).Passes eof newline text s where
  moves := ⟨n, hn, rfl⟩
  covers := fun _ _ hl hrest => .lost (hl (by simp [Yield.error])) n hrest

theorem Yield.passes_token {kind : κ} (he : kind ≠ eof) (hl : s.Lays newline text kind n n) :
    (Yield.token (Token.ofText kind (s.rest.take n) s.place) (s.skip n)).Passes
      eof newline text s where
  moves := ⟨n, hl.pos, rfl⟩
  covers := fun _ _ _ hrest => .token he hl hrest

/-- Whether a token is the header has no say in what it covers. -/
theorem Yield.Passes.header {y : Yield κ} (h : y.Passes eof newline text s) (isHeader : Bool) :
    { y with isHeader }.Passes eof newline text s :=
  ⟨h.moves, h.covers⟩

theorem Cursor.trailingToken_moves (text : κ) (s : Cursor) :
    ∃ k, (s.trailingToken text).2 = s.skip k := by
  unfold trailingToken
  dsimp only
  split
  · exact ⟨_, rfl⟩
  · exact ⟨_, skip_skip s _ _⟩

/-- A token with the rest of its line. -/
theorem Yield.passes_trailing {kind : κ} (he : kind ≠ eof) (ht : text ≠ eof)
    (hl : s.Lays newline text kind n n) :
    ({ tokens := Token.ofText kind (s.rest.take n) s.place :: ((s.skip n).trailingToken text).1
       cursor := ((s.skip n).trailingToken text).2 } : Yield κ).Passes eof newline text s where
  moves := by
    obtain ⟨k, hk⟩ := (s.skip n).trailingToken_moves text
    exact ⟨n + k, Nat.add_pos_left hl.pos k, by rw [hk, Cursor.skip_skip]⟩
  covers := fun _ _ _ hrest => .token he hl (hrest.trailingToken ht)

end

/-! ## Scans -/

/-- A scan that comes to its end covers the text. -/
theorem LexStep.Covers.run {eof newline text : κ} {step : LexStep κ}
    (h : step.Covers eof newline text) (s : Reader κ) {l : Lexed κ}
    (hr : Scan.run step eof s = .finished l) :
    Tiled eof newline text (l.errors ≠ []) s.cursor l.tokens := by
  suffices ∀ lossy : Prop, (l.errors ≠ [] → lossy) → Tiled eof newline text lossy s.cursor l.tokens
    from this _ id
  intro lossy hl
  induction hn : s.cursor.rest.length using Nat.strongRecOn generalizing s l with
  | ind n ih =>
    rw [Scan.run] at hr
    split at hr
    · rename_i hrest
      cases hr
      exact .done hrest
    · rename_i c rest hrest
      dsimp only at hr
      split at hr
      · rename_i hlt
        generalize hlater : Scan.run step eof (s.after (step s)) = later at hr
        cases later with
        | stalled l' place => cases hr
        | finished l' =>
          cases hr
          have hrest' := ih _ (hn ▸ hlt) (s.after (step s)) hlater
            (fun he => hl (by intro hnil; exact he (List.append_eq_nil_iff.mp hnil).2)) rfl
          refine h s (by simp [hrest]) hlt lossy l'.tokens ?_ hrest'
          intro he
          exact hl fun hnil => he (List.append_eq_nil_iff.mp hnil).1
      · cases hr

/-- A scan comes to its end if every step moves on, from readers with a property to readers with
the property. -/
theorem Scan.exists_finished {step : LexStep κ} {P : Reader κ → Prop}
    (h : ∀ s : Reader κ, P s → s.cursor.rest ≠ [] →
      (∃ n, 0 < n ∧ (step s).cursor = s.cursor.skip n) ∧ P (s.after (step s)))
    (eof : κ) (s : Reader κ) (hs : P s) : ∃ l, Scan.run step eof s = .finished l := by
  induction hn : s.cursor.rest.length using Nat.strongRecOn generalizing s with
  | ind m ih =>
    rw [Scan.run]
    split
    · exact ⟨_, rfl⟩
    · rename_i c rest hrest
      obtain ⟨⟨n, hpos, hmove⟩, hafter⟩ := h s hs (by simp [hrest])
      have hlt : (step s).cursor.rest.length < s.cursor.rest.length := by
        rw [hmove, Cursor.skip_rest, List.length_drop, hrest, List.length_cons]
        omega
      obtain ⟨l, hl⟩ := ih _ (hn ▸ hlt) (s.after (step s)) hafter rfl
      dsimp only
      rw [if_pos hlt, hl]
      exact ⟨_, rfl⟩

end DiagramLint
