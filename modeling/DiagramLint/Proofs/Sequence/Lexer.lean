-- The sequence diagram lexer yields only what it reads: every token stands
-- at the cursor it was read from, words and wrong arrows start with a
-- character that ends no word, and the header word is read as the header.
import DiagramLint.Sequence.Lexer
import DiagramLint.Proofs.Header.Tokens

namespace DiagramLint.Sequence

/-- The kinds whose tokens never start with white space or a semicolon. -/
def Kind.isSolid : Kind → Bool
  | .header | .ident | .invalidArrow => true
  | _ => false

section

variable {t before : Text} {s : Cursor}

/-! ## Parts of the step -/

theorem found_lexeme {kind : Kind} (n : Nat) (h : s.Beyond t before)
    (hs : kind.isSolid = true → ∃ c ∈ s.rest.head?, endsWord c = false) :
    (lexeme kind n s).Found Kind.isSolid endsWord t before :=
  Yield.found_token (h.skip n) (Token.found_ofText h hs)

theorem found_withTrailingText {tok : Tok} (h : s.Beyond t before)
    (hs : tok.Found Kind.isSolid endsWord t before) :
    (withTrailingText tok s).Found Kind.isSolid endsWord t before := by
  have htext : (trailingText s).2.Beyond t before ∧
      ∀ tok ∈ (trailingText s).1, tok.Found Kind.isSolid endsWord t before := h.trailingToken rfl
  refine ⟨htext.1, ?_⟩
  intro tok' hm
  rcases List.mem_cons.mp hm with rfl | hm
  · exact hs
  · exact htext.2 tok' hm

theorem found_word {r : Reader Kind} (h : r.cursor.Beyond t before)
    (hc : ∃ c ∈ r.cursor.rest.head?, isIdentChar c = true) :
    (word r).Found Kind.isSolid endsWord t before := by
  have htok : ∀ {kind : Kind} {image : Text},
      (Token.ofText kind image r.cursor.place).Found Kind.isSolid endsWord t before := by
    intro kind image
    obtain ⟨c, hm, hident⟩ := hc
    exact Token.found_ofText h fun _ => ⟨c, hm, endsWord_of_isIdentChar hident⟩
  unfold word
  dsimp only
  split
  · exact found_withTrailingText (h.skip _) htok
  · refine ⟨h.skip _, ?_⟩
    intro tok hm
    rw [List.mem_singleton.mp hm]
    exact htok

theorem arrowAt?_head {line : Text} {kind : Kind} {n : Nat} (h : arrowAt? line = some (kind, n)) :
    ∃ c rest, line = c :: rest ∧ ['<', '-', '='].contains c = true := by
  have hlist : ∀ a ∈ arrows ++ invalidArrows,
      a.toList.head?.any (['<', '-', '='].contains ·) = true := by decide
  have hfound : ∃ a ∈ arrows ++ invalidArrows, line.startsWith a.toList = true := by
    unfold arrowAt? at h
    rw [Option.or_eq_some_iff] at h
    rcases h with h | ⟨-, h⟩
    · obtain ⟨a, ha, -⟩ := Option.map_eq_some_iff.mp h
      have hstart := List.find?_some ha
      exact ⟨a, List.mem_append_left _ (List.mem_of_find?_eq_some ha), hstart⟩
    · obtain ⟨a, ha, -⟩ := Option.map_eq_some_iff.mp h
      have hstart := List.find?_some ha
      exact ⟨a, List.mem_append_right _ (List.mem_of_find?_eq_some ha), hstart⟩
  obtain ⟨a, ha, hstart⟩ := hfound
  obtain ⟨c, hc, hsign⟩ := (Option.any_eq_true _ _).mp (hlist a ha)
  obtain ⟨more, hmore⟩ := List.head?_eq_some_iff.mp hc
  obtain ⟨rest, hrest⟩ := List.isPrefixOf_iff_prefix.mp hstart
  exact ⟨c, more ++ rest, by rw [← hrest, hmore]; rfl, hsign⟩

end

/-! ## The step -/

theorem lexStep_honest : LexStep.Honest Kind.isSolid endsWord lexStep := by
  intro t before s hat _ _
  have h := hat.beyond
  unfold lexStep
  split
  · exact Yield.found_nothing h
  · rename_i c rest hrest
    split
    · exact Yield.found_nothing h.next
    · split
      · exact found_lexeme _ h fun hk => by cases hk
      · split
        · exact Yield.found_nothing (h.skip _)
        · split
          · exact found_withTrailingText h.next (Token.found_ofText h fun hk => by cases hk)
          · split
            · exact found_lexeme _ h fun hk => by cases hk
            · split
              · rename_i hident
                exact found_word h ⟨c, by rw [hrest]; rfl, hident⟩
              · split
                · rename_i kind n harrow
                  obtain ⟨d, line, hline, hd⟩ := arrowAt?_head harrow
                  refine found_lexeme n h fun _ => ⟨d, Cursor.head?_restOfLine hline, ?_⟩
                  rw [← Bool.not_eq_true]
                  intro hends
                  rw [contains_eq_false_of_all (by decide) hends] at hd
                  cases hd
                · exact Yield.found_error h.next

theorem lexStep_skims : LexStep.Skims Kind.newline lexStep where
  space := by
    intro s c rest hrest hc _
    by_cases hblank : Cursor.isBlankChar c = true
    · simp [lexStep, hrest, hblank, Yield.nothing]
    · by_cases hnl : c = '\n'
      · subst hnl
        have hstep : lexStep s = lexeme .newline 1 s.cursor := by
          unfold lexStep
          rw [hrest]
          rfl
        rw [hstep]
        refine ⟨rfl, rfl, ?_⟩
        intro tok hm
        rw [List.mem_singleton.mp hm]
        rfl
      · have hsigns : ['%', ':', '+', '-'].contains c = false :=
          contains_eq_false_of_all (by decide) hc
        simp only [List.contains_cons, List.contains_nil, Bool.or_false, Bool.or_eq_false_iff,
          beq_eq_false_iff_ne, ne_eq] at hsigns
        have harrow : arrowAt? s.cursor.restOfLine = none := by
          cases ha : arrowAt? s.cursor.restOfLine with
          | none => rfl
          | some arrow =>
            obtain ⟨d, line, hline, hd⟩ := arrowAt?_head ha
            have hhead := Cursor.head?_restOfLine hline
            rw [hrest] at hhead
            rw [← Option.some.inj hhead, contains_eq_false_of_all (by decide) hc] at hd
            cases hd
        have hstep : (lexStep s).cursor = s.cursor.next ∧ (lexStep s).tokens = [] ∧
            (lexStep s).isHeader = false := by
          unfold lexStep
          rw [hrest]
          simp [hblank, hnl, hsigns, isIdentChar_of_isWhiteSpace hc, harrow, Yield.error]
        refine ⟨hstep.1, hstep.2.2, ?_⟩
        rw [hstep.2.1]
        exact fun tok hm => by cases hm
  comment := by
    intro s rest hrest
    unfold lexStep
    rw [hrest]
    rfl

/-! ## The header -/

theorem wordKind_header {s : Reader Kind} (hs : s.Fresh .newline) {w : String}
    (hw : w ∈ headers) : wordKind s w = .header := by
  have hstart : s.follows true (· == Kind.newline) = true := by
    unfold Reader.follows
    split
    · rfl
    · rename_i tok htok
      rw [hs.previous tok htok]
      rfl
  unfold wordKind
  dsimp only
  rw [if_pos]
  simp [hs.headerSeen, hstart, hw]

/-- A fresh reader takes a header word for the header. -/
theorem lexStep_header {s : Reader Kind} (hs : s.Fresh .newline) {w post : Text}
    (hrest : s.cursor.rest = w ++ post) (hw : IsHeaderWord w) (hp : FollowsWord post)
    (hmem : String.ofList w ∈ headers) :
    ∃ tok, (lexStep s).tokens = [tok] ∧ tok.kind = .header ∧ tok.place = s.cursor.place ∧
      (lexStep s).cursor = s.cursor.skip w.length := by
  obtain ⟨c, rest, hcons⟩ := List.exists_cons_of_ne_nil hw.ne_nil
  have hident : isIdentChar c = true := hw.ident c (by rw [hcons]; exact List.mem_cons_self)
  have hsigns : ['\n', '\r', ' ', '\t', '%', ':', '+', '-'].contains c = false :=
    contains_eq_false_of_all (by decide) hident
  simp only [List.contains_cons, List.contains_nil, Bool.or_false, Bool.or_eq_false_iff,
    beq_eq_false_iff_ne, ne_eq] at hsigns
  have hstep : lexStep s = word s := by
    unfold lexStep
    rw [hrest, hcons]
    simp [Cursor.isBlankChar, hsigns, hident]
  have htake : s.cursor.rest.takeWhile isIdentChar = w := by
    rw [hrest, List.takeWhile_append_of_pos hw.ident]
    cases post with
    | nil => simp
    | cons d more => simp [isIdentChar_of_endsWord (hp d rfl)]
  have himage : s.cursor.rest.take w.length = w := by rw [hrest, List.take_left]
  have hkind := wordKind_header hs hmem
  refine ⟨Token.ofText .header w s.cursor.place, ?_, rfl, rfl, ?_⟩
  · rw [hstep, word]
    simp only [Cursor.takeWhile, Cursor.take, htake, himage, Token.ofText, hkind]
    rfl
  · rw [hstep, word]
    simp only [Cursor.takeWhile, Cursor.take, htake, himage, Token.ofText, hkind]
    rfl

/-! ## The tokens of a diagram -/

/-- The tokens of a sequence diagram with a heading. -/
theorem leads {g : Heading} {t : Text} (hg : g.Opens t) (hw : String.ofList g.word ∈ headers) :
    g.Leads Kind.isSolid Kind.newline Kind.header t (tokenize t).tokens := by
  obtain ⟨post, ht, hpost⟩ := id hg
  refine hg.leads ht hpost (fun c hc => (Bool.or_eq_false_iff.mp hc).1) lexStep_skims
    lexStep_honest rfl ?_
  intro s hs hrest
  exact lexStep_header hs hrest g.word_header hpost hw

end DiagramLint.Sequence
