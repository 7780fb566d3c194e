-- The pie chart lexer yields only what it reads: every token stands at the
-- cursor it was read from, and strings and words do not start with white
-- space. A header word with a semicolon behind it is a word like any other,
-- and then the chart has no header at all.
import DiagramLint.Pie.Lexer
import DiagramLint.Proofs.Header.Tokens

namespace DiagramLint.Pie

/-- The kinds whose tokens never start with white space. -/
def Kind.isSolid : Kind → Bool
  | .str | .word => true
  | _ => false

section

variable {t before : Text} {s : Cursor}

/-! ## Parts of the step -/

theorem found_lexeme {kind : Kind} (n : Nat) (h : s.Beyond t before)
    (hs : kind.isSolid = true → ∃ c ∈ s.rest.head?, isWhiteSpace c = false) :
    (lexeme kind n s).Found Kind.isSolid isWhiteSpace t before :=
  Yield.found_token (h.skip n) (Token.found_ofText h hs)

theorem found_quotedString {rest : Text} (h : s.Beyond t before) (hs : s.rest.head? = some '"') :
    (quotedString rest s).Found Kind.isSolid isWhiteSpace t before := by
  unfold quotedString
  split
  · exact found_lexeme _ h fun _ => ⟨'"', hs, by decide⟩
  · exact Yield.found_error (h.skip _)

theorem found_word {r : Reader Kind} (h : r.cursor.Beyond t before)
    (hc : ∃ c ∈ r.cursor.rest.head?, isWhiteSpace c = false) :
    (word r).Found Kind.isSolid isWhiteSpace t before := by
  unfold word
  dsimp only
  split
  · have htext : (trailingText (r.cursor.takeWhile isPieWordChar).2).2.Beyond t before ∧
        ∀ tok ∈ (trailingText (r.cursor.takeWhile isPieWordChar).2).1,
          tok.Found Kind.isSolid isWhiteSpace t before := (h.skip _).trailingToken rfl
    refine ⟨htext.1, ?_⟩
    intro tok hm
    rcases List.mem_cons.mp hm with rfl | hm
    · exact Token.found_ofText h fun _ => hc
    · exact htext.2 tok hm
  · refine ⟨h.skip _, ?_⟩
    intro tok hm
    rw [List.mem_singleton.mp hm]
    exact Token.found_ofText h fun _ => hc

/-- A word is the first token of its step, and only a free text follows it. -/
theorem word_tokens (s : Reader Kind) :
    ∃ later, (word s).tokens = Token.ofText
      (wordKind s (String.ofList (s.cursor.rest.take (s.cursor.rest.takeWhile isPieWordChar).length)))
      (s.cursor.rest.take (s.cursor.rest.takeWhile isPieWordChar).length) s.cursor.place :: later ∧
      ∀ tok ∈ later, tok.kind = .text := by
  unfold word
  dsimp only [Cursor.takeWhile, Cursor.take]
  split
  · refine ⟨_, rfl, ?_⟩
    intro tok hm
    unfold trailingText at hm
    dsimp only at hm
    split at hm
    · cases hm
    · rw [List.mem_singleton.mp hm]
      rfl
  · exact ⟨[], rfl, by simp⟩

theorem wordKind_of_ne {r : Reader Kind} {w : String} (h1 : w ≠ "pie") (h2 : w ≠ "showData")
    (h3 : w ≠ "title") : wordKind r w = .word := by
  unfold wordKind
  dsimp only
  rw [if_neg, if_neg, if_neg]
  · simp [h3]
  · simp [h2]
  · simp [headers, h1]

/-- A word that starts with white space is empty. -/
theorem word_eq_of_isWhiteSpace {r : Reader Kind} {c : Char} {rest : Text}
    (hrest : r.cursor.rest = c :: rest) (hc : isWhiteSpace c = true) :
    word r = .token (Token.ofText .word [] r.cursor.place) r.cursor := by
  have htake : r.cursor.rest.takeWhile isPieWordChar = [] := by
    rw [hrest, List.takeWhile_cons]
    simp [isPieWordChar, hc]
  have hkind : wordKind r (String.ofList []) = .word :=
    wordKind_of_ne (by decide) (by decide) (by decide)
  unfold word
  simp only [Cursor.takeWhile, Cursor.take, htake, List.length_nil, List.take_zero, Token.ofText,
    hkind]
  rfl

/-- The reader stays where it is at an empty word. -/
theorem word_of_isWhiteSpace {r : Reader Kind} {c : Char} {rest : Text}
    (hrest : r.cursor.rest = c :: rest) (hc : isWhiteSpace c = true) :
    (word r).cursor = r.cursor := by
  rw [word_eq_of_isWhiteSpace hrest hc]
  rfl

end

/-! ## The step -/

theorem lexStep_honest : LexStep.Honest Kind.isSolid isWhiteSpace lexStep := by
  intro t before s hat _ hlt
  have h := hat.beyond
  revert hlt
  unfold lexStep
  split
  · exact fun _ => Yield.found_nothing h
  · rename_i c rest hrest
    split
    · exact fun _ => Yield.found_nothing h.next
    · split
      · exact fun _ => found_lexeme _ h fun hk => by cases hk
      · split
        · exact fun _ => Yield.found_nothing (h.skip _)
        · split
          · exact fun _ => found_lexeme _ h fun hk => by cases hk
          · split
            · rename_i hquote
              exact fun _ => found_quotedString h (by rw [hrest, hquote]; rfl)
            · split
              · exact fun _ => found_lexeme _ h fun hk => by cases hk
              · intro hlt
                refine found_word h ⟨c, by rw [hrest]; rfl, ?_⟩
                rw [← Bool.not_eq_true]
                intro hc
                rw [word_of_isWhiteSpace hrest hc, hrest] at hlt
                exact absurd hlt (Nat.lt_irrefl _)

/-- White space that neither separates tokens nor ends a line is read as a word. -/
theorem lexStep_of_isWhiteSpace {s : Reader Kind} {c : Char} {rest : Text}
    (hrest : s.cursor.rest = c :: rest) (hc : isWhiteSpace c = true)
    (hb : Cursor.isBlankChar c = false) (hn : c ≠ '\n') : lexStep s = word s := by
  have hsigns : ['%', ':', '"', '-'].contains c = false := contains_eq_false_of_all (by decide) hc
  simp only [List.contains_cons, List.contains_nil, Bool.or_false, Bool.or_eq_false_iff,
    beq_eq_false_iff_ne, ne_eq] at hsigns
  have hdigit := isDigit_of_isWhiteSpace hc
  unfold lexStep
  rw [hrest]
  simp [hb, hn, hsigns, hdigit]

theorem lexStep_skims : LexStep.Skims Kind.newline lexStep where
  space := by
    intro s c rest hrest hc hlt
    by_cases hblank : Cursor.isBlankChar c = true
    · simp [lexStep, hrest, hblank, Yield.nothing]
    · by_cases hnl : c = '\n'
      · subst hnl
        have hstep : lexStep s = lexeme .newline 1 s.cursor := by
          unfold lexStep
          rw [hrest]
          rfl
        rw [hstep]
        refine ⟨rfl, rfl, ?_⟩
        intro tok hm
        rw [List.mem_singleton.mp hm]
        rfl
      · have hstep := lexStep_of_isWhiteSpace hrest hc (by simpa using hblank) hnl
        -- no step leads on from here
        rw [hstep, word_of_isWhiteSpace hrest hc] at hlt
        exact absurd hlt (Nat.lt_irrefl _)
  comment := by
    intro s rest hrest
    unfold lexStep
    rw [hrest]
    rfl

/-! ## The header -/

theorem eq_pie {w : Text} (h : String.ofList w ∈ headers) : w = ['p', 'i', 'e'] := by
  have heq : String.ofList w = "pie" := by simpa [headers] using h
  have := congrArg String.toList heq
  rwa [String.toList_ofList] at this

theorem lexStep_pie {s : Reader Kind} {post : Text}
    (hrest : s.cursor.rest = ['p', 'i', 'e'] ++ post) : lexStep s = word s := by
  unfold lexStep
  rw [hrest]
  rfl

theorem follows_of_fresh {s : Reader Kind} (hs : s.Fresh .newline) :
    s.follows true (· == Kind.newline) = true ∧
      s.follows false (fun k => k == Kind.header || k == Kind.showData) = false := by
  unfold Reader.follows
  split
  · exact ⟨rfl, rfl⟩
  · rename_i tok htok
    rw [hs.previous tok htok]
    exact ⟨rfl, rfl⟩

/-- A fresh reader takes the header word for the header, if white space follows. -/
theorem lexStep_header {s : Reader Kind} (hs : s.Fresh .newline) {post : Text}
    (hrest : s.cursor.rest = ['p', 'i', 'e'] ++ post)
    (hp : ∀ c ∈ post.head?, isWhiteSpace c = true) :
    ∃ tok, (lexStep s).tokens = [tok] ∧ tok.kind = .header ∧ tok.place = s.cursor.place ∧
      (lexStep s).cursor = s.cursor.skip 3 := by
  have htake : s.cursor.rest.takeWhile isPieWordChar = ['p', 'i', 'e'] := by
    rw [hrest, List.takeWhile_append_of_pos (List.all_eq_true.mp (by decide))]
    cases post with
    | nil => rfl
    | cons d more => simp [isPieWordChar, hp d rfl]
  have hkind : wordKind s (String.ofList ['p', 'i', 'e']) = .header := by
    unfold wordKind
    dsimp only
    rw [if_pos]
    rw [hs.headerSeen, (follows_of_fresh hs).1]
    decide
  have himage : s.cursor.rest.take ['p', 'i', 'e'].length = ['p', 'i', 'e'] := by
    rw [hrest, List.take_left]
  refine ⟨Token.ofText .header ['p', 'i', 'e'] s.cursor.place, ?_, rfl, rfl, ?_⟩
  · rw [lexStep_pie hrest, word]
    simp only [Cursor.takeWhile, Cursor.take, htake, himage, Token.ofText, hkind]
    rfl
  · rw [lexStep_pie hrest, word]
    simp only [Cursor.takeWhile, Cursor.take, htake, himage, Token.ofText, hkind]
    rfl

/-- With a semicolon behind it, the header word is part of a longer word. -/
theorem lexStep_semicolon {s : Reader Kind} {post : Text}
    (hrest : s.cursor.rest = ['p', 'i', 'e'] ++ ';' :: post) :
    ∃ tok, (lexStep s).tokens = [tok] ∧ tok.kind = .word := by
  have htake : s.cursor.rest.takeWhile isPieWordChar =
      'p' :: 'i' :: 'e' :: ';' :: post.takeWhile isPieWordChar := by
    rw [hrest]
    rfl
  generalize post.takeWhile isPieWordChar = more at htake
  have himage : (s.cursor.takeWhile isPieWordChar).1 = 'p' :: 'i' :: 'e' :: ';' :: more := by
    change s.cursor.rest.take (s.cursor.rest.takeWhile isPieWordChar).length = _
    rw [← htake]
    exact (List.prefix_iff_eq_take.mp (List.takeWhile_prefix _)).symm
  have hne : ∀ w : String, w.toList.take 4 ≠ ['p', 'i', 'e', ';'] →
      String.ofList ('p' :: 'i' :: 'e' :: ';' :: more) ≠ w := by
    rintro w hw rfl
    rw [String.toList_ofList] at hw
    exact hw rfl
  have hkind : wordKind s (String.ofList ('p' :: 'i' :: 'e' :: ';' :: more)) = .word :=
    wordKind_of_ne (hne "pie" (by decide)) (hne "showData" (by decide)) (hne "title" (by decide))
  refine ⟨Token.ofText .word ('p' :: 'i' :: 'e' :: ';' :: more) s.cursor.place, ?_, rfl⟩
  rw [lexStep_pie hrest, word]
  simp only [himage, Token.ofText, hkind]
  rfl

/-! ## The tokens of a chart -/

section

variable {g : Heading} {t : Text}

/-- The tokens of a pie chart whose header word ends at white space or with the text. -/
theorem leads_of_space {post : Text} (hg : g.Opens t) (hw : String.ofList g.word ∈ headers)
    (ht : t = g.text ++ post) (hspace : ∀ c ∈ post.head?, isWhiteSpace c = true) :
    g.Leads Kind.isSolid Kind.newline Kind.header t (scan t).lexed.tokens := by
  have hword := eq_pie hw
  refine hg.leads ht hspace (fun c hc => hc) lexStep_skims lexStep_honest rfl ?_
  intro s hs hrest
  rw [hword] at hrest ⊢
  exact lexStep_header hs hrest hspace

/-- The tokens of a pie chart with a semicolon behind its header word: the first that is no line
end, if the scan gets to it, is a word. -/
theorem leads_of_semicolon {more : Text} (hw : String.ofList g.word ∈ headers)
    (ht : t = g.text ++ ';' :: more) :
    (∀ tok ∈ (scan t).lexed.tokens, tok.kind = .newline) ∨
      ∃ nls head rest, (scan t).lexed.tokens = nls ++ head :: rest ∧
        (∀ tok ∈ nls, tok.kind = .newline) ∧ head.kind = .word ∧
        ∀ tok ∈ rest, g.line ≤ tok.line := by
  have hword := eq_pie hw
  rcases Heading.scan_to_word ht lexStep_skims with hall | ⟨nls, s, hnls, hs, hat, hrest, hrun⟩
  · exact Or.inl hall
  · rw [hword] at hrest
    obtain ⟨head, htok, hkind⟩ := lexStep_semicolon hrest
    rcases Scan.tokens_run lexStep .eof s with ⟨hnil, -⟩ | ⟨-, -, htoks⟩ | ⟨-, hlt, htoks⟩
    · rw [hrest] at hnil
      cases hnil
    · left
      rw [scan, hrun, htoks, List.append_nil]
      exact hnls
    · right
      refine ⟨nls, head, _, by rw [scan, hrun, htoks, htok]; rfl, hnls, hkind, ?_⟩
      intro tok hm
      have hfound := lexStep_honest t _ s hat (by simp [hrest]) hlt
      exact Heading.line_le_of_found (lexStep_honest.run rfl _ hfound.cursor tok hm)

/-- The tokens of a pie chart with a heading. A semicolon keeps its word from being the header. -/
theorem leads (hg : g.Opens t) (hw : String.ofList g.word ∈ headers) :
    g.Leads Kind.isSolid Kind.newline Kind.header t (scan t).lexed.tokens ∨
      ∃ nls head rest, (scan t).lexed.tokens = nls ++ head :: rest ∧
        (∀ tok ∈ nls, tok.kind = .newline) ∧ head.kind = .word ∧
        ∀ tok ∈ rest, g.line ≤ tok.line := by
  obtain ⟨post, ht, hpost⟩ := id hg
  by_cases hsemi : post.head? = some ';'
  · obtain ⟨more, rfl⟩ := List.head?_eq_some_iff.mp hsemi
    rcases leads_of_semicolon hw ht with hall | hheadless
    · exact Or.inl (.stalled hall)
    · exact Or.inr hheadless
  · exact Or.inl (leads_of_space hg hw ht (hpost.isWhiteSpace hsemi))

end

end DiagramLint.Pie
