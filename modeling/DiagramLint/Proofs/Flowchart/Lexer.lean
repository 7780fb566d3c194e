-- The flowchart lexer yields only what it reads: every token stands at the
-- cursor it was read from, words and wrong links start with a character
-- that ends no word, and the header word is read as the header.
import DiagramLint.Flowchart.Lexer
import DiagramLint.Proofs.Header.Tokens

namespace DiagramLint.Flowchart

/-- The kinds whose tokens never start with white space or a semicolon. -/
def Kind.isSolid : Kind → Bool
  | .header | .keyword | .ident | .invalidLink => true
  | _ => false

/-- A token of a flowchart at its place in a text. -/
abbrev Found (t before : Text) (tok : Tok) : Prop := tok.Found Kind.isSolid endsWord t before

section

variable {t before : Text} {s : Cursor}

/-! ## Parts of the step -/

theorem found_lexeme {kind : Kind} (n : Nat) (h : s.Beyond t before)
    (hs : kind.isSolid = true → ∃ c ∈ s.rest.head?, endsWord c = false) :
    (lexeme kind n s).Found Kind.isSolid endsWord t before :=
  Yield.found_token (h.skip n) (Token.found_ofText h hs)

theorem found_trailingText (h : s.Beyond t before) :
    (trailingText s).2.Beyond t before ∧ ∀ tok ∈ (trailingText s).1, Found t before tok :=
  h.trailingToken rfl

theorem found_word {r : Reader Kind} (h : r.cursor.Beyond t before)
    (hc : ∃ c ∈ r.cursor.rest.head?, isIdentChar c = true) :
    (word r).Found Kind.isSolid endsWord t before := by
  have hends : ∃ c ∈ r.cursor.rest.head?, endsWord c = false := by
    obtain ⟨c, hm, hident⟩ := hc
    exact ⟨c, hm, endsWord_of_isIdentChar hident⟩
  have hafter := h.skip (wordAt r.cursor.rest).length
  unfold word
  dsimp only
  split
  · obtain ⟨hcursor, htext⟩ := found_trailingText hafter
    refine ⟨hcursor, ?_⟩
    intro tok hm
    rcases List.mem_cons.mp hm with rfl | hm
    · exact Token.found_ofText h fun _ => hends
    · exact htext tok hm
  · refine ⟨hafter, ?_⟩
    intro tok hm
    rw [List.mem_singleton.mp hm]
    exact Token.found_ofText h fun _ => hends

theorem found_label (opener : String) (h : s.Beyond t before) :
    (label opener s).Found Kind.isSolid endsWord t before := by
  unfold label
  split
  · split
    · exact Yield.found_error (h.skip _)
    · exact Yield.found_token ((h.skip _).skip _) (Token.found_ofText h fun hk => by cases hk)
  · dsimp only
    split
    · exact Yield.found_nothing (h.skip _)
    · exact Yield.found_token (h.skip _) (Token.found_ofText h fun hk => by cases hk)

theorem found_edgeLabel (h : s.Beyond t before) :
    (edgeLabel s).Found Kind.isSolid endsWord t before := by
  unfold edgeLabel
  dsimp only
  split
  · exact found_lexeme _ h fun hk => by cases hk
  · exact Yield.found_error (h.skip _)

end

/-! ## Characters that start no link and no bracket -/

/-- The characters that links and brackets start with. -/
def isSign (c : Char) : Bool :=
  [':', '-', '=', '<', '~', '.', '>', '(', '[', '{', ')', ']', '}'].contains c

theorem runLength_cons_of_ne {c d : Char} (h : c ≠ d) (rest : Text) :
    runLength d (c :: rest) = 0 := by
  simp [runLength, h]

theorem startsWith_cons_of_ne {c d : Char} (h : c ≠ d) (rest s : Text) :
    Text.startsWith (c :: rest) (d :: s) = false := by
  simp [Text.startsWith, List.isPrefixOf, h.symm]

theorem linkAt?_of_not_contains {c : Char} (h : ['-', '=', '<', '~'].contains c = false)
    (rest : Text) : linkAt? (c :: rest) = none := by
  simp only [List.contains_cons, List.contains_nil, Bool.or_false, Bool.or_eq_false_iff,
    beq_eq_false_iff_ne, ne_eq] at h
  obtain ⟨hdash, hequal, hless, htilde⟩ := h
  have hshaft : shaft? (c :: rest) = none := by
    simp [shaft?, runLength_cons_of_ne hdash, runLength_cons_of_ne hequal]
  have htext : textLink? (c :: rest) = none := by
    simp [textLink?, opensTextLink, startsWith_cons_of_ne hdash, startsWith_cons_of_ne hequal]
  have hplain : plainLink? (c :: rest) = none := by
    simp [plainLink?, hless, hshaft, runLength_cons_of_ne htilde]
  have hinvalid : invalidLink? (c :: rest) = none := by
    simp [invalidLink?, startsWith_cons_of_ne hdash, startsWith_cons_of_ne hequal]
  simp [linkAt?, htext, hplain, hinvalid]

theorem linkAt?_of_not_isSign {c : Char} (h : isSign c = false) (rest : Text) :
    linkAt? (c :: rest) = none := by
  refine linkAt?_of_not_contains ?_ rest
  simp only [isSign, List.contains_cons, List.contains_nil, Bool.or_false,
    Bool.or_eq_false_iff] at h ⊢
  obtain ⟨-, hdash, hequal, hless, htilde, -⟩ := h
  exact ⟨hdash, hequal, hless, htilde⟩

/-- No bracket of a list stands where a text starts with a character that none of them does. -/
theorem bracketAt?_of_head {brackets : List String} {p : Char → Bool}
    (hb : ∀ b ∈ brackets, b.toList.head?.any p = true) {c : Char} (h : p c = false)
    (rest : Text) : bracketAt? brackets (c :: rest) = none := by
  unfold bracketAt?
  rw [List.find?_eq_none]
  intro b hm
  obtain ⟨d, hd, hsign⟩ := (Option.any_eq_true _ _).mp (hb b hm)
  obtain ⟨more, hmore⟩ := List.head?_eq_some_iff.mp hd
  have hne : c ≠ d := by
    rintro rfl
    rw [h] at hsign
    cases hsign
  rw [hmore, startsWith_cons_of_ne hne]
  exact Bool.false_ne_true

/-- A character that starts no link and no bracket starts a word, or is unexpected. -/
theorem wideToken_of_not_isSign {s : Reader Kind} {c : Char} {rest : Text}
    (hrest : s.cursor.rest = c :: rest) (hn : c ≠ '\n') (hr : c ≠ '\r') (h : isSign c = false) :
    wideToken s c = if isIdentChar c then word s else unexpectedChar c s.cursor := by
  obtain ⟨line, hline⟩ := Cursor.exists_restOfLine hrest hn hr
  have hcolon : c ≠ ':' := by
    rintro rfl
    exact absurd h (by decide)
  have hgreater : c ≠ '>' := by
    rintro rfl
    exact absurd h (by decide)
  unfold wideToken
  dsimp only
  rw [hline, startsWith_cons_of_ne hcolon, linkAt?_of_not_isSign h,
    bracketAt?_of_head (by decide) h, bracketAt?_of_head (by decide) h]
  simp [hgreater]

/-! ## The step -/

/-- A link that flowcharts do not have is one of two arrows. -/
theorem invalidLink_sign {line : Text} {n : Nat} (h : linkAt? line = some (.invalidLink, n)) :
    ∃ sign ∈ ["->", "=>"], sign.length = n ∧ sign.toList <+: line := by
  have hinvalid : invalidLink? line = some n := by
    unfold linkAt? at h
    cases htext : textLink? line <;> cases hplain : plainLink? line <;>
      simp [htext, hplain] at h
    exact h
  unfold invalidLink? at hinvalid
  split at hinvalid
  · rename_i hstart
    cases hinvalid
    rcases Bool.or_eq_true_iff.mp hstart with hs | hs
    · exact ⟨"->", by simp, rfl, List.isPrefixOf_iff_prefix.mp hs⟩
    · exact ⟨"=>", by simp, rfl, List.isPrefixOf_iff_prefix.mp hs⟩
  · cases hinvalid

theorem invalidLink_head {line : Text} {n : Nat} (h : linkAt? line = some (.invalidLink, n)) :
    ∃ c rest, line = c :: rest ∧ endsWord c = false := by
  obtain ⟨sign, hsign, -, rest, rfl⟩ := invalidLink_sign h
  simp only [List.mem_cons, List.not_mem_nil, or_false] at hsign
  rcases hsign with rfl | rfl
  · exact ⟨'-', '>' :: rest, rfl, by decide⟩
  · exact ⟨'=', '>' :: rest, rfl, by decide⟩

theorem linkAt?_kind {line : Text} {kind : Kind} {n : Nat} (h : linkAt? line = some (kind, n)) :
    kind = .link ∨ kind = .invalidLink := by
  unfold linkAt? at h
  cases htext : textLink? line <;> cases hplain : plainLink? line <;>
    simp [htext, hplain] at h
  all_goals simp_all

theorem found_wideToken {t before : Text} {s : Reader Kind} {c : Char}
    (h : s.cursor.Beyond t before) (hc : s.cursor.rest.head? = some c) :
    (wideToken s c).Found Kind.isSolid endsWord t before := by
  unfold wideToken
  dsimp only
  split
  · exact found_lexeme _ h fun hk => by cases hk
  · split
    · rename_i kind n hlink
      refine found_lexeme n h ?_
      intro hk
      rcases linkAt?_kind hlink with rfl | rfl
      · cases hk
      · obtain ⟨d, line, hline, hends⟩ := invalidLink_head hlink
        exact ⟨d, Cursor.head?_restOfLine hline, hends⟩
    · split
      · exact Yield.found_error h.next
      · split
        · rename_i opener _
          obtain ⟨hcursor, htokens⟩ := found_label opener (h.skip opener.length)
          refine ⟨hcursor, ?_⟩
          intro tok hm
          rcases List.mem_cons.mp hm with rfl | hm
          · exact Token.found_ofText h fun hk => by cases hk
          · exact htokens tok hm
        · split
          · exact found_lexeme _ h fun hk => by cases hk
          · split
            · rename_i hident
              exact found_word h ⟨c, hc, hident⟩
            · exact Yield.found_error h.next

theorem lexStep_honest : LexStep.Honest Kind.isSolid endsWord lexStep := by
  intro t before s hat _ _
  have h := hat.beyond
  unfold lexStep
  split
  · exact Yield.found_nothing h
  · rename_i c rest hrest
    split
    · exact Yield.found_nothing h.next
    · split
      · exact found_lexeme _ h fun hk => by cases hk
      · split
        · exact Yield.found_nothing (h.skip _)
        · split
          · exact found_lexeme _ h fun hk => by cases hk
          · split
            · exact found_lexeme _ h fun hk => by cases hk
            · split
              · exact found_edgeLabel h
              · exact found_wideToken h (by rw [hrest]; rfl)

/-- Past the characters with tokens of their own, a step reads a wide token. -/
theorem lexStep_eq_wideToken {s : Reader Kind} {c : Char} {rest : Text}
    (hrest : s.cursor.rest = c :: rest) (hblank : Cursor.isBlankChar c = false) (hn : c ≠ '\n')
    (hc : ['%', ';', '&', '|'].contains c = false) : lexStep s = wideToken s c := by
  simp only [List.contains_cons, List.contains_nil, Bool.or_false, Bool.or_eq_false_iff,
    beq_eq_false_iff_ne, ne_eq] at hc
  unfold lexStep
  rw [hrest]
  simp [hblank, hn, hc]

theorem lexStep_skims : LexStep.Skims Kind.newline lexStep where
  space := by
    intro s c rest hrest hc _
    by_cases hblank : Cursor.isBlankChar c = true
    · simp [lexStep, hrest, hblank, Yield.nothing]
    · by_cases hnl : c = '\n'
      · subst hnl
        have hstep : lexStep s = lexeme .newline 1 s.cursor := by
          unfold lexStep
          rw [hrest]
          rfl
        rw [hstep]
        refine ⟨rfl, rfl, ?_⟩
        intro tok hm
        rw [List.mem_singleton.mp hm]
        rfl
      · have hr : c ≠ '\r' := by
          rintro rfl
          exact hblank rfl
        rw [lexStep_eq_wideToken hrest (by simpa using hblank) hnl
            (contains_eq_false_of_all (by decide) hc),
          wideToken_of_not_isSign hrest hnl hr (contains_eq_false_of_all (by decide) hc),
          isIdentChar_of_isWhiteSpace hc]
        exact ⟨rfl, rfl, fun tok hm => by cases hm⟩
  comment := by
    intro s rest hrest
    unfold lexStep
    rw [hrest]
    rfl

/-! ## The header -/

theorem wordAt_append {word post : Text} (hw : IsHeaderWord word) (hp : FollowsWord post) :
    wordAt (word ++ post) = word := by
  have hpost : wordAt post = [] := by
    cases post with
    | nil => rfl
    | cons c rest =>
      have hends : endsWord c = true := hp c rfl
      have hdash : c ≠ '-' := by
        rintro rfl
        exact absurd hends (by decide)
      simp [wordAt, isIdentChar_of_endsWord hends, hdash]
  have happend : ∀ {a : Text}, (∀ c ∈ a, isIdentChar c = true) → wordAt (a ++ post) = a := by
    intro a
    induction a with
    | nil => exact fun _ => hpost
    | cons c rest ih =>
      intro ha
      rw [List.cons_append, wordAt, ha c List.mem_cons_self,
        ih fun d hd => ha d (List.mem_cons_of_mem _ hd)]
      rfl
  exact happend hw.ident

theorem wordKind_header {s : Reader Kind} (hs : s.Fresh .newline) {w : String}
    (hw : w ∈ headers) : wordKind (.of s) w = .header := by
  have hstart : s.follows true Kind.isSeparator = true := by
    unfold Reader.follows
    split
    · rfl
    · rename_i tok htok
      rw [hs.previous tok htok]
      rfl
  unfold wordKind
  rw [if_pos]
  simp [WordContext.of, hs.headerSeen, hstart, hw]

/-- A word of identifier characters is read as a word, up to the character that ends it. -/
theorem lexStep_word {s : Reader Kind} {w post : Text} (hrest : s.cursor.rest = w ++ post)
    (hw : IsHeaderWord w) (hp : FollowsWord post) :
    lexStep s = word s ∧ wordAt s.cursor.rest = w ∧ s.cursor.rest.take w.length = w := by
  obtain ⟨c, rest, hcons⟩ := List.exists_cons_of_ne_nil hw.ne_nil
  have hident : isIdentChar c = true := hw.ident c (by rw [hcons]; exact List.mem_cons_self)
  have hrest' : s.cursor.rest = c :: (rest ++ post) := by rw [hrest, hcons]; rfl
  have hsigns : ∀ {l : List Char}, (l.all fun d => !isIdentChar d) = true → l.contains c = false :=
    fun hl => contains_eq_false_of_all hl hident
  have hplain : ['\n', '\r', ' ', '\t'].contains c = false := hsigns (by decide)
  simp only [List.contains_cons, List.contains_nil, Bool.or_false, Bool.or_eq_false_iff,
    beq_eq_false_iff_ne, ne_eq] at hplain
  obtain ⟨hn, hr, hspace, htab⟩ := hplain
  refine ⟨?_, by rw [hrest, wordAt_append hw hp], by rw [hrest, List.take_left]⟩
  rw [lexStep_eq_wideToken hrest' (by simp [Cursor.isBlankChar, hr, hspace, htab]) hn
      (hsigns (by decide)),
    wideToken_of_not_isSign hrest' hn hr (hsigns (by decide)), hident]
  rfl

/-- A fresh reader takes a header word for the header. -/
theorem lexStep_header {s : Reader Kind} (hs : s.Fresh .newline) {w post : Text}
    (hrest : s.cursor.rest = w ++ post) (hw : IsHeaderWord w) (hp : FollowsWord post)
    (hmem : String.ofList w ∈ headers) :
    ∃ tok, (lexStep s).tokens = [tok] ∧ tok.kind = .header ∧ tok.place = s.cursor.place ∧
      (lexStep s).cursor = s.cursor.skip w.length := by
  obtain ⟨hstep, hword, himage⟩ := lexStep_word hrest hw hp
  have hkind := wordKind_header hs hmem
  refine ⟨Token.ofText .header w s.cursor.place, ?_, rfl, rfl, ?_⟩
  · rw [hstep, word, hword]
    simp only [Cursor.take, himage, Token.ofText, hkind]
    rfl
  · rw [hstep, word, hword]
    simp only [Cursor.take, himage, Token.ofText, hkind]
    rfl

/-! ## The tokens of a chart -/

/-- The tokens of a flowchart with a heading. -/
theorem leads {g : Heading} {t : Text} (hg : g.Opens t) (hw : String.ofList g.word ∈ headers) :
    g.Leads Kind.isSolid Kind.newline Kind.header t (tokenize t).tokens := by
  obtain ⟨post, ht, hpost⟩ := id hg
  refine hg.leads ht hpost (fun c hc => (Bool.or_eq_false_iff.mp hc).1) lexStep_skims
    lexStep_honest rfl ?_
  intro s hs hrest
  exact lexStep_header hs hrest g.word_header hpost hw

end DiagramLint.Flowchart
