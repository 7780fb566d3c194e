-- What a tiling says about its tokens: they end in the end of the text, each
-- is found on the line and in the columns it names, they stand one after the
-- other, and what they leave out is blank, a comment or the end of a line.
import DiagramLint.Proofs.Lexing.Tiling
import DiagramLint.Proofs.Parsing.Derivations

namespace DiagramLint

variable {κ : Type}

theorem Cursor.upTo_skip (s : Cursor) (n : Nat) : s.place.UpTo (s.skip n).place := by
  rw [skip_place]
  exact Position.upTo_foldl_advance _ _

/-! ## What is said of a lexer -/

/-- The rest of the line from a character of a text on. -/
def lineFrom (t : Text) (i : Nat) : Text := (t.drop i).takeWhile (· != '\n')

/-- A character of a text is one of a token's: it stands on the line and in the columns of the
token. -/
def Token.Covers (t : Text) (i : Nat) (tok : Token κ) : Prop :=
  (placeAfter (t.take i)).line = tok.line ∧ tok.column ≤ (placeAfter (t.take i)).column ∧
    (placeAfter (t.take i)).column < tok.endColumn

/-- A character that no token has to hold: a blank, a character of a comment that runs to the end
of its line, or white space between a free text and the end of its line. -/
inductive Skipped (text : κ) (t : Text) (toks : List (Token κ)) (i : Nat) : Prop where
  | blank {c : Char} (hc : t[i]? = some c) (hb : Cursor.isBlankChar c = true)
  | comment {j : Nat} (hj : j ≤ i) (hi : i < j + (lineFrom t j).length)
    (hc : ['%', '%'] <+: lineFrom t j)
    (hu : ∀ k, j ≤ k → k < j + (lineFrom t j).length → ∀ tok ∈ toks, ¬ tok.Covers t k)
  | trailing {j : Nat} {tok : Token κ} (hj : j ≤ i) (hi : i < j + (lineFrom t j).length)
    (hm : tok ∈ toks) (hk : tok.kind = text) (he : tok.endPlace = placeAfter (t.take j))
    (hw : ∀ c ∈ lineFrom t j, isWhiteSpace c = true)

/-- The tokens of a text tell where they stand, and leave out only what no token has to hold
unless there are errors. -/
structure Lexed.Faithful (eof newline text : κ) (t : Text) (l : Lexed κ) : Prop where
  terminated : Terminated eof l.tokens
  images : ∀ tok ∈ l.tokens, tok.kind ≠ eof → tok.kind ≠ newline →
    t.line? tok.line = some (t.line tok.line).content ∧ 1 ≤ tok.column ∧
      ((t.line tok.line).content.take (tok.endColumn - 1)).drop (tok.column - 1) =
        tok.image.toList
  newlines : ∀ tok ∈ l.tokens, tok.kind = newline → tok.image = "\n" ∧
    ∃ before after, t = before ++ '\n' :: after ∧ tok.place = placeAfter before
  ordered : l.tokens.Pairwise fun a b => a.place.Before b.place ∧ a.endPlace.UpTo b.place
  lossless : l.errors = [] → ∀ i < t.length,
    (∃ tok ∈ l.tokens, tok.Covers t i) ∨ Skipped text t l.tokens i

/-! ## A cursor in its line -/

namespace Cursor

variable {t before : Text} {s : Cursor}

theorem At.take_eq (h : s.At t before) (k : Nat) :
    t.take (before.length + k) = before ++ s.rest.take k := by
  rw [h.text_eq, List.take_length_add_append]

/-- The place of a character further on in the line. -/
theorem At.placeAfter_take (h : s.At t before) {k : Nat} (hk : k ≤ s.wholeLine.length) :
    placeAfter (t.take (before.length + k)) = ⟨s.line, s.column + k⟩ := by
  rw [h.take_eq, ← s.skip_place_inline hk]
  exact ((h.skip k).place_eq).symm

theorem At.lineFrom_eq (h : s.At t before) {k : Nat} (hk : k ≤ s.wholeLine.length) :
    lineFrom t (before.length + k) = s.wholeLine.drop k := by
  have hdrop : t.drop (before.length + k) = s.rest.drop k := by
    rw [h.text_eq, List.drop_length_add_append]
  have hpass : ∀ c ∈ s.rest.take k, (c != '\n') = true := by
    intro c hc
    simp only [bne_iff_ne, ne_eq]
    rintro rfl
    exact s.newline_not_mem_take hk hc
  have hline : s.wholeLine = s.rest.take k ++ (s.rest.drop k).takeWhile (· != '\n') := by
    rw [← List.takeWhile_append_of_pos hpass, List.take_append_drop]
    rfl
  have hlen : (s.rest.take k).length = k := by
    rw [List.length_take]
    exact Nat.min_eq_left (hk.trans s.wholeLine_isPrefix.length_le)
  rw [lineFrom, hdrop, hline, List.drop_append_of_le_length (by omega)]
  simp [List.drop_eq_nil_of_le, hlen]

theorem At.length_eq (h : s.At t before) : t.length = before.length + s.rest.length := by
  rw [h.text_eq, List.length_append]

end Cursor

/-! ## Tokens at a cursor -/

namespace Token

@[simp] theorem place_ofText (kind : κ) (x : Text) (p : Position) : (ofText kind x p).place = p := rfl

@[simp] theorem endPlace_ofText (kind : κ) (x : Text) (p : Position) :
    (ofText kind x p).endPlace = ⟨p.line, p.column + x.length⟩ := by
  simp [endPlace, endColumn, ofText]

end Token

section

variable {eof newline text : κ} {lossy : Prop} {s : Cursor} {toks : List (Token κ)}

namespace Cursor.Lays

variable {kind : κ} {m n : Nat}

theorem le (h : s.Lays newline text kind m n) : m ≤ n := by
  cases h with
  | inline => exact Nat.le_refl _
  | lineFeed => exact Nat.le_refl _
  | trailing => exact (trimEnd_length_le s).trans s.restOfLine_length_le

theorem le_rest (h : s.Lays newline text kind m n) : n ≤ s.rest.length := by
  cases h with
  | inline _ _ hle => exact hle.trans s.restOfLine_isPrefix.length_le
  | lineFeed hc =>
    obtain ⟨rest, hrest⟩ := List.head?_eq_some_iff.mp hc
    simp [hrest]
  | trailing => exact s.wholeLine_isPrefix.length_le

theorem length_take (h : s.Lays newline text kind m n) : (s.rest.take m).length = m := by
  rw [List.length_take]
  exact Nat.min_eq_left (h.le.trans h.le_rest)

/-- A token ends where the cursor goes on, or before. -/
theorem end_upTo (h : s.Lays newline text kind m n) :
    (⟨s.line, s.column + m⟩ : Position).UpTo (s.skip n).place := by
  cases h with
  | inline _ _ hle =>
    rw [s.skip_place_inline (hle.trans s.restOfLine_length_le)]
    exact .refl _
  | lineFeed hc =>
    obtain ⟨rest, hrest⟩ := List.head?_eq_some_iff.mp hc
    rw [skip_place, hrest]
    exact .inl (Nat.lt_succ_self _)
  | trailing =>
    rw [s.skip_place_inline (Nat.le_refl _)]
    exact .inr ⟨rfl, Nat.add_le_add_left ((trimEnd_length_le s).trans s.restOfLine_length_le) _⟩

end Cursor.Lays

theorem Tiled.terminated (h : Tiled eof newline text lossy s toks) : Terminated eof toks := by
  induction h with
  | done => exact ⟨[], _, rfl, rfl, by simp⟩
  | gap _ _ ih => exact ih
  | token he _ _ ih => exact ih.cons he
  | lost _ _ _ ih => exact ih

/-- The tokens of a scan that comes to its end end with the text. -/
theorem LexStep.Covers.terminated {step : LexStep κ} (h : step.Covers eof newline text) {t : Text}
    {l : Lexed κ} (hl : Scan.run step eof (Reader.ofText t) = .finished l) :
    Terminated eof l.tokens :=
  (h.run (Reader.ofText t) hl).terminated

/-- Every token of a tiling stands at its cursor or behind. -/
theorem Tiled.upTo (h : Tiled eof newline text lossy s toks) :
    ∀ tok ∈ toks, s.place.UpTo tok.place := by
  induction h with
  | done =>
    intro tok hm
    rw [List.mem_singleton.mp hm]
    exact .refl _
  | @gap s n _ _ _ ih => exact fun tok hm => (s.upTo_skip n).trans (ih tok hm)
  | @token s _ _ n _ _ _ _ ih =>
    intro tok hm
    rcases List.mem_cons.mp hm with rfl | hm
    · exact .refl _
    · exact (s.upTo_skip n).trans (ih tok hm)
  | @lost s _ _ n _ ih => exact fun tok hm => (s.upTo_skip n).trans (ih tok hm)

/-- The tokens of a tiling stand one after the other. -/
theorem Tiled.ordered (h : Tiled eof newline text lossy s toks) :
    toks.Pairwise fun a b => a.place.Before b.place ∧ a.endPlace.UpTo b.place := by
  induction h with
  | done => exact List.pairwise_singleton _ _
  | gap _ _ ih => exact ih
  | @token s kind m n toks _ hl h ih =>
    refine List.pairwise_cons.mpr ⟨?_, ih⟩
    intro b hm
    have hend := hl.end_upTo.trans (h.upTo b hm)
    rw [Token.place_ofText, Token.endPlace_ofText, hl.length_take]
    have hstart : s.place.Before ⟨s.line, s.column + m⟩ :=
      .inr ⟨rfl, Nat.lt_add_of_pos_right hl.pos⟩
    exact ⟨hstart.trans_upTo hend, hend⟩
  | lost _ _ _ ih => exact ih

/-! ## Tokens of one line -/

theorem Cursor.Gap.skip_line {n : Nat} (h : s.Gap n) : (s.skip n).line = s.line := by
  cases h with
  | @blank c hc hb =>
    obtain ⟨rest, hrest⟩ := List.head?_eq_some_iff.mp hc
    have hn : c ≠ '\n' := by
      rintro rfl
      cases hb
    simp [Cursor.skip, Cursor.next, hrest, hn]
  | comment => exact congrArg Position.line (s.skip_place_inline (Nat.le_refl _))

theorem Cursor.Lays.skip_line {kind : κ} {m n : Nat} (h : s.Lays newline text kind m n)
    (hk : kind ≠ newline) : (s.skip n).line = s.line := by
  cases h with
  | inline _ _ hle =>
    exact congrArg Position.line (s.skip_place_inline (hle.trans s.restOfLine_length_le))
  | lineFeed => exact absurd rfl hk
  | trailing => exact congrArg Position.line (s.skip_place_inline (Nat.le_refl _))

/-- The tokens of a tiling before the first line feed stand on the line of its cursor, and so does
the token behind them. -/
theorem Tiled.line_eq (h : Tiled eof newline text lossy s toks) (hl : ¬ lossy)
    {pre post : List (Token κ)} {tok : Token κ} (htoks : toks = pre ++ tok :: post)
    (hpre : ∀ x ∈ pre, x.kind ≠ newline) : tok.line = s.line := by
  induction h generalizing pre with
  | done =>
    rcases List.append_eq_singleton_iff.mp htoks.symm with ⟨-, hnil⟩ | ⟨-, hnil⟩
    · rw [(List.cons.inj hnil).1]
      rfl
    · cases hnil
  | gap hg _ ih => rw [ih htoks hpre, hg.skip_line]
  | token _ hlay _ ih =>
    cases pre with
    | nil =>
      rw [← (List.cons.inj htoks).1]
      rfl
    | cons x pre =>
      obtain ⟨hx, hbehind⟩ := List.cons.inj htoks
      have hinline := hpre x List.mem_cons_self
      rw [← hx] at hinline
      rw [ih hbehind fun y hy => hpre y (List.mem_cons_of_mem _ hy), hlay.skip_line hinline]
  | lost hlossy => exact absurd hlossy hl

/-- From any of its tokens on, a tiling is one. -/
theorem Tiled.exists_from (h : Tiled eof newline text lossy s toks) {pre post : List (Token κ)}
    {tok : Token κ} (htoks : toks = pre ++ tok :: post) :
    ∃ s', Tiled eof newline text lossy s' (tok :: post) := by
  induction h generalizing pre with
  | @done s hs =>
    rcases List.append_eq_singleton_iff.mp htoks.symm with ⟨-, hnil⟩ | ⟨-, hnil⟩
    · exact ⟨s, by rw [hnil]; exact .done hs⟩
    · cases hnil
  | gap _ _ ih => exact ih htoks
  | @token s kind m n toks he hlay h ih =>
    cases pre with
    | nil => exact ⟨s, by rw [← List.nil_append (tok :: post), ← htoks]; exact .token he hlay h⟩
    | cons x pre => exact ih (List.cons.inj htoks).2
  | lost _ _ _ ih => exact ih htoks

/-- Without errors, only a line feed leads from the line of a token to another one. -/
theorem Tiled.same_line (h : Tiled eof newline text lossy s toks) (hl : ¬ lossy)
    {pre mid post : List (Token κ)} {first tok : Token κ}
    (htoks : toks = pre ++ first :: (mid ++ tok :: post))
    (hmid : ∀ x ∈ first :: mid, x.kind ≠ newline) : tok.line = first.line := by
  obtain ⟨s', hfrom⟩ := h.exists_from htoks
  have hfirst := hfrom.line_eq hl (List.nil_append _).symm (fun _ hx => by cases hx)
  have htok := hfrom.line_eq hl (List.cons_append).symm hmid
  rw [htok, hfirst]

/-! ## Where tokens are found -/

/-- What the tokens of a tiling are read from, each at a cursor of its own. -/
theorem Tiled.exists_lays {t before : Text} (h : Tiled eof newline text lossy s toks)
    (hat : s.At t before) : ∀ tok ∈ toks, tok.kind ≠ eof →
      ∃ s' : Cursor, ∃ before' m n, s'.At t before' ∧ s'.Lays newline text tok.kind m n ∧
        tok = Token.ofText tok.kind (s'.rest.take m) s'.place := by
  induction h generalizing before with
  | done =>
    intro tok hm hk
    rw [List.mem_singleton.mp hm] at hk
    exact absurd rfl hk
  | gap _ _ ih => exact ih (hat.skip _)
  | token _ hl _ ih =>
    intro tok hm hk
    rcases List.mem_cons.mp hm with rfl | hm
    · exact ⟨_, before, _, _, hat, hl, rfl⟩
    · exact ih (hat.skip _) tok hm hk
  | lost _ _ _ ih => exact ih (hat.skip _)

/-- The last token of a tiling stands where the text ends. -/
theorem Tiled.last_place {t before : Text} (h : Tiled eof newline text lossy s toks)
    (hat : s.At t before) {tok : Token κ} (hlast : toks.getLast? = some tok) :
    tok.place = placeAfter t := by
  induction h generalizing before with
  | @done s hs =>
    have htext := hat.text_eq
    rw [hs, List.append_nil] at htext
    rw [← Option.some.inj hlast, htext]
    exact hat.place_eq
  | gap _ _ ih => exact ih (hat.skip _) hlast
  | token _ _ h ih =>
    obtain ⟨body, last, hbody, -⟩ := h.terminated
    refine ih (hat.skip _) ?_
    rw [hbody, ← List.cons_append, List.getLast?_concat] at hlast
    rw [hbody, List.getLast?_concat, hlast]
  | lost _ _ _ ih => exact ih (hat.skip _) hlast

/-- A token on one line is found there, in its columns. -/
theorem Cursor.At.columns_eq {t before : Text} (hat : s.At t before) {m : Nat} (hm : 0 < m)
    (hle : m ≤ s.restOfLine.length) :
    t.line? s.line = some (t.line s.line).content ∧ 1 ≤ s.column ∧
      ((t.line s.line).content.take (s.column + m - 1)).drop (s.column - 1) = s.rest.take m := by
  have hne : s.restOfLine ≠ [] := List.length_pos_iff.mp (Nat.lt_of_lt_of_le hm hle)
  obtain ⟨below, hbelow⟩ := s.restOfLine_isPrefix
  obtain ⟨lead, tail, hline, hcolumn⟩ := exists_line?_at before s.newline_not_mem_restOfLine hne
    s.getLast?_restOfLine below
  rw [hbelow, ← hat.text_eq, ← hat.place_eq] at hline
  rw [← hat.place_eq] at hcolumn
  change s.column = lead.length + 1 at hcolumn
  change t.line? s.line = some (lead ++ (s.restOfLine ++ tail)) at hline
  rw [Text.content_line_of_line? hline]
  refine ⟨hline, by omega, ?_⟩
  have hend : s.column + m - 1 = lead.length + m := by omega
  rw [hend, hcolumn, List.take_length_add_append, List.take_append_of_le_length hle,
    ← s.take_eq_restOfLine hle, Nat.add_sub_cancel]
  exact List.drop_left

theorem Cursor.Lays.inline_le {kind : κ} {m n : Nat} (h : s.Lays newline text kind m n)
    (hk : kind ≠ newline) : m ≤ s.restOfLine.length := by
  cases h with
  | inline _ _ hle => exact hle
  | lineFeed => exact absurd rfl hk
  | trailing => exact trimEnd_length_le s

theorem Cursor.Lays.lineFeed_eq {kind : κ} {m n : Nat} (h : s.Lays newline text kind m n)
    (hk : kind = newline) (ht : text ≠ newline) : m = 1 ∧ ∃ rest, s.rest = '\n' :: rest := by
  cases h with
  | inline hne => exact absurd hk hne
  | lineFeed hc => exact ⟨rfl, List.head?_eq_some_iff.mp hc⟩
  | trailing => exact absurd hk ht

/-! ## What no token holds -/

/-- A character of a token is covered by it. -/
theorem Cursor.Lays.covers {t before : Text} {kind : κ} {m n : Nat} (hat : s.At t before)
    (h : s.Lays newline text kind m n) {k : Nat} (hk : k < m) :
    (Token.ofText kind (s.rest.take m) s.place).Covers t (before.length + k) := by
  have hinline : k ≤ s.wholeLine.length := by
    cases h with
    | inline _ _ hle => exact (Nat.le_of_lt hk).trans (hle.trans s.restOfLine_length_le)
    | lineFeed => omega
    | trailing =>
      exact (Nat.le_of_lt hk).trans ((trimEnd_length_le s).trans s.restOfLine_length_le)
  unfold Token.Covers
  rw [hat.placeAfter_take hinline]
  simp only [Token.endColumn, Token.ofText, String.length_ofList, h.length_take]
  exact ⟨rfl, Nat.le_add_right _ _, Nat.add_lt_add_left hk _⟩

/-- The white space behind a free text. -/
theorem Cursor.Lays.skipped {t before : Text} {kind : κ} {m n : Nat} (hat : s.At t before)
    (h : s.Lays newline text kind m n) {k : Nat} (hm : m ≤ k) (hk : k < n)
    (hmem : Token.ofText kind (s.rest.take m) s.place ∈ toks) :
    Skipped text t toks (before.length + k) := by
  cases h with
  | inline => omega
  | lineFeed => omega
  | trailing =>
    have hle := (trimEnd_length_le s).trans s.restOfLine_length_le
    have hfrom := hat.lineFrom_eq hle
    refine .trailing (Nat.add_le_add_left hm _) ?_ hmem rfl ?_ ?_
    · rw [hfrom, List.length_drop]
      omega
    · rw [hat.placeAfter_take hle, Token.endPlace_ofText, s.take_trimEnd]
      rfl
    · obtain ⟨returns, hline, hreturns⟩ := s.exists_wholeLine
      obtain ⟨gone, hgone, hwhite⟩ := Text.exists_trimEnd s.restOfLine
      rw [hfrom, hline]
      nth_rewrite 2 [hgone]
      rw [List.append_assoc, List.drop_left]
      intro c hc
      rcases List.mem_append.mp hc with hc | hc
      · exact hwhite c hc
      · rw [hreturns c hc]
        decide

/-- A gap is not covered from before or from behind. -/
theorem Cursor.Gap.skipped {t before : Text} {n : Nat} (hat : s.At t before) (h : s.Gap n)
    {earlier : List (Token κ)} (he : ∀ tok ∈ earlier, tok.endPlace.UpTo s.place)
    (hl : ∀ tok ∈ toks, (s.skip n).place.UpTo tok.place) {k : Nat} (hk : k < n) :
    Skipped text t (earlier ++ toks) (before.length + k) := by
  cases h with
  | blank hc hb =>
    have hk0 : k = 0 := by omega
    obtain ⟨rest, hrest⟩ := List.head?_eq_some_iff.mp hc
    refine .blank ?_ hb
    rw [hat.text_eq, hrest, hk0, Nat.add_zero]
    simp
  | comment hc =>
    have hfrom : lineFrom t before.length = s.wholeLine := hat.lineFrom_eq (Nat.zero_le _)
    refine .comment (Nat.le_add_right _ k) ?_ ?_ ?_
    · rw [hfrom]
      omega
    · obtain ⟨rest, hrest⟩ := hc
      rw [hfrom, Cursor.wholeLine, ← hrest]
      simp [List.takeWhile]
    · intro i hi hlt tok hm hcovers
      rw [hfrom] at hlt
      obtain ⟨k, rfl⟩ := Nat.exists_eq_add_of_le hi
      unfold Token.Covers at hcovers
      rw [hat.placeAfter_take (by omega)] at hcovers
      dsimp only at hcovers
      rcases List.mem_append.mp hm with hm | hm
      · have hbefore := he tok hm
        simp only [Position.UpTo, Token.endPlace, Cursor.place] at hbefore
        omega
      · have hbehind := hl tok hm
        rw [s.skip_place_inline (Nat.le_refl _)] at hbehind
        simp only [Position.UpTo, Token.place] at hbehind
        omega

/-- Unless characters were lost, every character is covered or need not be. -/
theorem Tiled.lossless {t before : Text} (h : Tiled eof newline text lossy s toks) (hl : ¬ lossy)
    (hat : s.At t before) {earlier : List (Token κ)}
    (he : ∀ tok ∈ earlier, tok.endPlace.UpTo s.place) {i : Nat} (hb : before.length ≤ i)
    (hi : i < t.length) :
    (∃ tok ∈ toks, tok.Covers t i) ∨ Skipped text t (earlier ++ toks) i := by
  induction h generalizing before earlier with
  | done hs =>
    rw [hat.length_eq, hs] at hi
    exact absurd hi (Nat.not_lt.mpr hb)
  | @gap s n toks hg h ih =>
    obtain ⟨k, rfl⟩ := Nat.exists_eq_add_of_le hb
    by_cases hk : k < n
    · exact .inr (hg.skipped hat he h.upTo hk)
    · refine ih (hat.skip n) (fun tok hm => (he tok hm).trans (s.upTo_skip n)) ?_
      rw [List.length_append, List.length_take]
      omega
  | @token s kind m n toks _ hlay h ih =>
    obtain ⟨k, rfl⟩ := Nat.exists_eq_add_of_le hb
    by_cases hm : k < m
    · exact .inl ⟨_, List.mem_cons_self, hlay.covers hat hm⟩
    · by_cases hk : k < n
      · exact .inr (hlay.skipped hat (Nat.not_lt.mp hm) hk (by simp))
      · -- the token just laid joins the earlier ones
        have hearlier : ∀ tok ∈ earlier ++ [Token.ofText kind (s.rest.take m) s.place],
            tok.endPlace.UpTo (s.skip n).place := by
          intro tok hm
          rcases List.mem_append.mp hm with hm | hm
          · exact (he tok hm).trans (s.upTo_skip n)
          · rw [List.mem_singleton.mp hm, Token.endPlace_ofText, hlay.length_take]
            exact hlay.end_upTo
        have hbefore : (before ++ s.rest.take n).length ≤ before.length + k := by
          rw [List.length_append, List.length_take]
          omega
        rcases ih (hat.skip n) hearlier hbefore with ⟨tok, hm, hcovers⟩ | hskip
        · exact .inl ⟨tok, List.mem_cons_of_mem _ hm, hcovers⟩
        · rw [List.append_assoc] at hskip
          exact .inr hskip
  | lost hlossy => exact absurd hlossy hl

/-- A scan that covers a text gives a faithful account of it. -/
theorem Tiled.faithful (hne : newline ≠ eof) (htn : text ≠ newline) {t : Text} {l : Lexed κ}
    (h : Tiled eof newline text (l.errors ≠ []) (Cursor.ofText t) l.tokens) :
    l.Faithful eof newline text t where
  terminated := h.terminated
  images := by
    intro tok hm he hn
    obtain ⟨s, before, m, n, hat, hlay, htok⟩ := h.exists_lays (Cursor.at_ofText t) tok hm he
    have hline := hat.columns_eq hlay.pos (hlay.inline_le hn)
    rw [htok]
    simpa [Token.ofText, Token.endColumn, hlay.length_take, Cursor.place] using hline
  newlines := by
    intro tok hm hk
    obtain ⟨s, before, m, n, hat, hlay, htok⟩ :=
      h.exists_lays (Cursor.at_ofText t) tok hm (hk ▸ hne)
    obtain ⟨rfl, rest, hrest⟩ := hlay.lineFeed_eq hk htn
    have himage : tok.image = "\n" := by
      rw [htok, hrest]
      rfl
    refine ⟨himage, before, rest, by rw [hat.text_eq, hrest], ?_⟩
    rw [htok]
    exact hat.place_eq
  ordered := h.ordered
  lossless := by
    intro hclean i hi
    have hempty : ∀ tok ∈ ([] : List (Token κ)), tok.endPlace.UpTo (Cursor.ofText t).place := by simp
    simpa using h.lossless (not_not.mpr hclean) (Cursor.at_ofText t) hempty (Nat.zero_le i) hi

end

end DiagramLint
