-- What the findings about sequence diagrams point at: an arrow that messages
-- do not have is spelled as one of three, a misspelled keyword is a word of
-- its own, and the books of the blocks keep the place of every `end`.
import DiagramLint.Proofs.Linter.Showing
import DiagramLint.Proofs.Sequence.Blocks
import DiagramLint.Proofs.Sequence.Mending
import DiagramLint.Sequence.Language

namespace DiagramLint.Sequence

/-! ## How tokens are spelled -/

theorem invalidArrow_sign {line : Text} {n : Nat} (h : arrowAt? line = some (.invalidArrow, n)) :
    ∃ sign ∈ invalidArrows, sign.length = n ∧ sign.toList <+: line := by
  unfold arrowAt? at h
  rw [Option.or_eq_some_iff] at h
  rcases h with h | ⟨-, h⟩
  · obtain ⟨sign, -, heq⟩ := Option.map_eq_some_iff.mp h
    cases heq
  · obtain ⟨sign, hsign, heq⟩ := Option.map_eq_some_iff.mp h
    cases heq
    have hstart := List.find?_some hsign
    exact ⟨sign, List.mem_of_find?_eq_some hsign, rfl, List.isPrefixOf_iff_prefix.mp hstart⟩

theorem wordKind_ne_invalidArrow (s : Reader Kind) (w : String) :
    wordKind s w ≠ .invalidArrow := by
  unfold wordKind
  dsimp only
  split
  · decide
  · split <;> decide

/-- A token that is a wrong arrow is spelled as one. -/
theorem lexStep_invalidArrow (s : Reader Kind) :
    ∀ tok ∈ (lexStep s).tokens, tok.kind = .invalidArrow → tok.image ∈ invalidArrows := by
  intro tok hm hk
  unfold lexStep at hm
  split at hm
  · cases hm
  · split at hm
    · cases hm
    · split at hm
      · rw [List.mem_singleton.mp hm] at hk
        cases hk
      · split at hm
        · cases hm
        · split at hm
          · rcases mem_withTrailingText hm with rfl | htext
            · cases hk
            · rw [htext] at hk
              cases hk
          · split at hm
            · rw [List.mem_singleton.mp hm] at hk
              cases hk
            · split at hm
              · rcases mem_word hm with ⟨hword, -⟩ | htext
                · rw [hword] at hk
                  exact absurd hk (wordKind_ne_invalidArrow s _)
                · rw [htext] at hk
                  cases hk
              · split at hm
                · rename_i kind n harrow
                  rw [List.mem_singleton.mp hm] at hk ⊢
                  change kind = .invalidArrow at hk
                  subst hk
                  obtain ⟨sign, hsign, rfl, hline⟩ := invalidArrow_sign harrow
                  change String.ofList (s.cursor.rest.take sign.length) ∈ _
                  rwa [s.cursor.ofList_take_sign hline]
                · cases hm

theorem tokenize_invalidArrow (t : Text) :
    ∀ tok ∈ (tokenize t).tokens, tok.kind = .invalidArrow → tok.image ∈ invalidArrows := by
  have heof : ∀ place : Position, (Token.ofText Kind.eof [] place).kind = .invalidArrow →
      (Token.ofText Kind.eof [] place).image ∈ invalidArrows := nofun
  exact Scan.tokens_all lexStep_invalidArrow heof (.ofText t)

theorem standsIn_tokenize {t : Text} {tok : Tok} (hm : tok ∈ (tokenize t).tokens)
    (he : tok.kind ≠ .eof) (hn : tok.kind ≠ .newline) : tok.StandsIn t := by
  obtain ⟨l, hl⟩ := scan_finishes t
  rw [tokenize, hl] at hm
  exact lexStep_covers.standsIn hl hm he hn

/-! ## Blocks -/

/-- An `end` that closes nothing is reported where it stands. -/
theorem exists_stray {t : Text} {place : Position}
    (h : .endWithoutBlock place ∈ (parse (tokenize t).tokens).errors) :
    ∃ tok ∈ (tokenize t).tokens, tok.kind = .keyword ∧ tok.image = "end" ∧ place = tok.place := by
  have hsplit := List.takeWhile_append_dropWhile (p := (·.kind == Kind.newline))
    (l := (tokenize t).tokens)
  have hgap : ∀ x ∈ (tokenize t).tokens.takeWhile (·.kind == Kind.newline), x.kind = .newline := by
    intro x hx
    exact eq_of_beq (List.mem_takeWhile_imp (p := fun x : Tok => x.kind == Kind.newline) hx)
  cases hskip : (tokenize t).tokens.dropWhile (·.kind == Kind.newline) with
  | nil =>
    rw [parse, hskip] at h
    cases h
  | cons header rest =>
    by_cases hk : header.kind = .header
    · rw [hskip] at hsplit
      have hbooks := parse_keepsBooks (terminated_tokenize t) (tidy_tokenize t) hsplit.symm hgap hk
      have hstray : place ∈ (parse (tokenize t).tokens).errors.filterMap ParseError.stray? :=
        List.mem_filterMap.mpr ⟨_, h, rfl⟩
      rw [hbooks.strays] at hstray
      obtain ⟨tok, hm, starts, more, hmark⟩ :=
        BlockSyntax.exists_markAt (mem_of_mem_strays hstray)
      obtain ⟨hcloses, hplace⟩ := BlockSyntax.markAt_closes hmark
      simp only [blockSyntax, Bool.and_eq_true, beq_iff_eq] at hcloses
      exact ⟨tok, by rw [← hsplit]; simp [hm], hcloses.1, hcloses.2, hplace⟩
    · rw [parse, hskip] at h
      dsimp only at h
      rw [if_neg hk] at h
      cases List.mem_singleton.mp h

/-! ## The stages -/

theorem explain_shows {t : Text} {e : ParseError} (h : e ∈ (parse (tokenize t).tokens).errors) :
    ((explain e).clampTo t).Shows t := by
  cases e with
  | misspelledKeyword place word suggestion =>
    obtain ⟨pre, first, tok, post, htokens, -, hk, -, rfl, rfl, -⟩ := parse_stems _ _ h
    have hm : tok ∈ (tokenize t).tokens := by
      rw [htokens]
      simp
    have hstands := standsIn_tokenize hm (by rw [hk]; decide) (by rw [hk]; decide)
    exact .keyword rfl rfl (hstands.reads_image rfl rfl (by simp [explain])).2
  | endWithoutBlock place =>
    obtain ⟨tok, hm, hk, himage, rfl⟩ := exists_stray h
    have hstands := standsIn_tokenize hm (by rw [hk]; decide) (by rw [hk]; decide)
    refine .strayEnd (.inl rfl) ?_
    rw [← himage]
    exact (hstands.reads_image rfl rfl (by rw [himage]; rfl)).2
  | _ => exact Diagnostic.shows_other rfl (by decide)

theorem grammar_allShow (t : Text) (options : LintOptions) :
    grammar.AllShow t options (tokenize t) where
  postLex d hd := by
    obtain ⟨tok, hm, hfinding⟩ := List.mem_filterMap.mp hd
    unfold arrowFinding? at hfinding
    split at hfinding
    · rename_i hk
      cases hfinding
      have hstands := standsIn_tokenize hm (by rw [hk]; decide) (by rw [hk]; decide)
      exact .arrow rfl (tokenize_invalidArrow t tok hm hk)
        (hstands.reads_image rfl rfl (by simp [Token.width])).2
    · cases hfinding
  errors _ _ he := explain_shows he
  analysis _ _ _ _ h := by
    cases h
    exact fun _ hd => by cases hd
  postParse _ _ _ hd := by cases hd

end DiagramLint.Sequence
