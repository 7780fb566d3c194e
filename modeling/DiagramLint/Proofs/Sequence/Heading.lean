-- A sequence diagram behind its header word. The tokens there are those of
-- the rows of what follows the word, whatever this is, as long as the lexer
-- has nothing to report of the lines above.
import DiagramLint.Proofs.Sequence.Lexer
import DiagramLint.Proofs.Sequence.Pages

namespace DiagramLint.Sequence

open Text

/-- White space that is read without an error is a blank or a line feed. -/
theorem lexStep_space {s : Reader Kind} {c : Char} {rest : Text}
    (hs : s.cursor.rest = c :: rest) (hc : isWhiteSpace c = true) :
    (lexStep s).errors = [] ↔ Cursor.isBlankChar c = true ∨ c = '\n' := by
  constructor
  · intro he
    have hwhite : ['%', ':', '+', '-', '<', '='].contains c = false :=
      contains_eq_false_of_all (by decide) hc
    rcases lexStep_cases hs he with ⟨hb, -⟩ | ⟨hn, -⟩ | ⟨hcomment, -⟩ | ⟨hcolon, -⟩ | ⟨hsign, -⟩ |
      ⟨hident, -⟩ | ⟨-, kind, n, harrow, -⟩
    · exact .inl hb
    · exact .inr hn
    · simp [hcomment.1] at hwhite
    · simp [hcolon] at hwhite
    · rcases hsign.1 with hsign | hsign
      all_goals simp [hsign] at hwhite
    · rw [isIdentChar_of_isWhiteSpace hc] at hident
      cases hident
    · obtain ⟨first, line, hfirst, hsigns⟩ := arrowAt?_head harrow
      have hhead := Cursor.head?_restOfLine hfirst
      rw [hs, List.head?_cons, Option.some.injEq] at hhead
      subst hhead
      simp_all
  · rintro (hb | rfl)
    · simp [lexStep, hs, hb, Yield.nothing]
    · unfold lexStep
      rw [hs]
      rfl

theorem lexStep_moves {s : Reader Kind} (hne : s.cursor.rest ≠ []) :
    (lexStep s).cursor.rest.length < s.cursor.rest.length := by
  obtain ⟨n, hpos, hcursor⟩ := (lexStep_passes s hne).moves
  rw [hcursor, Cursor.skip_rest, List.length_drop]
  have := List.length_pos_of_ne_nil hne
  omega

/-- What comes before the header word is skimmed over, whatever comes behind, if it is read without
an error in some text. -/
theorem skim_alike {pre x x' : Text} (hp : Preamble pre) {s s' : Reader Kind}
    (hs' : s'.Fresh .newline) (hrest : s.cursor.rest = pre ++ x)
    (hrest' : s'.cursor.rest = pre ++ x') (hc : (Scan.run lexStep .eof s).lexed.errors = []) :
    ∃ nls e, (Scan.run lexStep .eof s').lexed = ⟨nls, []⟩ ++ (Scan.run lexStep .eof e).lexed ∧
      (∀ tok ∈ nls, tok.kind = .newline) ∧ e.Fresh .newline ∧ e.cursor.rest = x' ∧
      lexStep.Reaches s' e := by
  induction hp generalizing s s' with
  | nil => exact ⟨[], s', rfl, by simp, hs', hrest', .refl⟩
  | space c rest hwhite _ ih =>
    have hne : s.cursor.rest ≠ [] := by rw [hrest]; exact List.cons_ne_nil _ _
    have hne' : s'.cursor.rest ≠ [] := by rw [hrest']; exact List.cons_ne_nil _ _
    rw [run_cons hne] at hc
    obtain ⟨hown, hlater⟩ := List.append_eq_nil_iff.mp hc
    obtain ⟨hcursor, -, -⟩ := lexStep_skims.space s c _ hrest hwhite (lexStep_moves hne)
    obtain ⟨hcursor', hheader', hkinds'⟩ :=
      lexStep_skims.space s' c _ hrest' hwhite (lexStep_moves hne')
    have hown' : (lexStep s').errors = [] :=
      (lexStep_space hrest' hwhite).mpr ((lexStep_space hrest hwhite).mp hown)
    obtain ⟨nls, e, hrun, hnls, he, herest, hreach⟩ := ih (s := s.after (lexStep s))
      (hs'.after hheader' hkinds') (by rw [Reader.after, hcursor, Cursor.next_rest, hrest]; rfl)
      (by rw [Reader.after, hcursor', Cursor.next_rest, hrest']; rfl) hlater
    refine ⟨(lexStep s').tokens ++ nls, e, ?_, ?_, he, herest,
      .head ⟨hne', lexStep_moves hne', hown', rfl⟩ hreach⟩
    · rw [run_cons hne', hrun, ← lexed_append_assoc]
      congr 1
      change (⟨_, (lexStep s').errors ++ []⟩ : Lexed Kind) = _
      rw [hown']
      rfl
    · intro tok hm
      rcases List.mem_append.mp hm with hm | hm
      · exact hkinds' tok hm
      · exact hnls tok hm
  | comment body rest hb _ ih =>
    have hline : ∀ {s : Reader Kind} {x : Text},
        s.cursor.rest = '%' :: '%' :: (body ++ '\n' :: rest) ++ x →
          (s.after (lexStep s)).cursor.rest = '\n' :: rest ++ x := by
      intro s x hs
      have hstep := lexStep_skims.comment s (body ++ '\n' :: rest ++ x) (by rw [hs]; simp)
      rw [hstep]
      change s.cursor.takeLine.2.rest = _
      rw [Cursor.takeLine_rest, hs]
      have hall : ∀ c ∈ '%' :: '%' :: body, (c != '\n') = true := by
        intro c hc
        rw [bne_iff_ne]
        rintro rfl
        simp [hb] at hc
      have happend : '%' :: '%' :: (body ++ '\n' :: rest) ++ x =
          ('%' :: '%' :: body) ++ ('\n' :: rest ++ x) := by simp
      rw [happend, List.dropWhile_append_of_pos hall]
      rfl
    have hne : s.cursor.rest ≠ [] := by rw [hrest]; exact List.cons_ne_nil _ _
    have hne' : s'.cursor.rest ≠ [] := by rw [hrest']; exact List.cons_ne_nil _ _
    rw [run_cons hne] at hc
    have hstep' := lexStep_skims.comment s' (body ++ '\n' :: rest ++ x') (by rw [hrest']; simp)
    have hfresh : (s'.after (lexStep s')).Fresh .newline :=
      hs'.after (by rw [hstep']; rfl) (by rw [hstep']; exact fun _ hm => by cases hm)
    obtain ⟨nls, e, hrun, hnls, he, herest, hreach⟩ :=
      ih hfresh (hline hrest) (hline hrest') (List.append_eq_nil_iff.mp hc).2
    refine ⟨nls, e, ?_, hnls, he, herest,
      .head ⟨hne', lexStep_moves hne', by rw [hstep']; rfl, rfl⟩ hreach⟩
    rw [run_cons hne', hrun, hstep']
    exact lexed_nil_append _

/-- A fresh reader at a header word goes on behind the header, with nothing to report. -/
theorem lexStep_header_word {s : Reader Kind} (hs : s.Fresh .newline) {w post : Text}
    (hrest : s.cursor.rest = w ++ post) (hw : IsHeaderWord w) (hp : FollowsWord post)
    (hmem : String.ofList w ∈ headers) :
    ∃ header, (lexStep s).lexed = ⟨[header], []⟩ ∧ header.kind = .header ∧
      (s.after (lexStep s)).previous = some header ∧ (s.after (lexStep s)).headerSeen = true ∧
      (s.after (lexStep s)).cursor.rest = post := by
  obtain ⟨header, htokens, hkind, -, hcursor⟩ := lexStep_header hs hrest hw hp hmem
  obtain ⟨c, rest, hcons⟩ := List.exists_cons_of_ne_nil hw.ne_nil
  have hstep : lexStep s = word s :=
    lexStep_of_ident (by rw [hrest, hcons]; rfl) (hw.ident c (by rw [hcons]; exact List.mem_cons_self))
  have hboth : (word s).errors = [] ∧ (word s).isHeader = true := by
    rw [hstep] at htokens
    unfold word at htokens ⊢
    dsimp only at htokens ⊢
    split at htokens
    · rename_i hkeyword
      rw [withTrailingText_tokens, List.cons.injEq] at htokens
      rw [htokens.1, hkind] at hkeyword
      cases hkeyword
    · rename_i hplain
      rw [if_neg hplain, (List.cons.inj htokens).1, hkind]
      exact ⟨rfl, rfl⟩
  refine ⟨header, ?_, hkind, ?_, ?_, ?_⟩
  · rw [Yield.lexed, htokens, hstep, hboth.1]
  · rw [Reader.after, htokens]
    rfl
  · rw [Reader.after, hstep, hboth.2]
    exact Bool.or_true _
  · change (lexStep s).cursor.rest = post
    rw [hcursor, Cursor.skip_rest, hrest, List.drop_left]

/-- A header token, of which only the kind matters for what comes behind. -/
def headerToken : Tok := ⟨.header, "", 0, 0⟩

/-- The tokens of a text behind its header word, and whether it is read without an error, follow
from the rows behind the word. -/
structure HasPage (t post : Text) (gap rest : Toks) (header : Tok) : Prop where
  tokens : (tokenize t).tokens = gap ++ header :: rest
  gap_newline : ∀ tok ∈ gap, tok.kind = .newline
  header_kind : header.kind = .header
  shapes : rest.map Token.shape = pageShapes (some headerToken) post.rows
  errors : (tokenize t).errors = [] ↔ OnPage RowClean (some headerToken) post.rows
  reader : ∃ s, lexStep.Reaches (Reader.ofText t) s ∧ s.cursor.rest = post ∧
    (Scan.run lexStep .eof s).lexed.tokens = rest

/-- Texts that start with the same heading are read by their rows, if one of them is read without
an error. -/
theorem exists_page {g : Heading} {t known post post' : Text} (hw : String.ofList g.word ∈ headers)
    (hknown : known = g.text ++ post') (hclean : (tokenize known).errors = [])
    (ht : t = g.text ++ post) (hpost : FollowsWord post) :
    ∃ gap rest header, HasPage t post gap rest header := by
  have hsplit : ∀ {t post : Text}, t = g.text ++ post →
      (Reader.ofText t : Reader Kind).cursor.rest = (g.above ++ g.lead) ++ (g.word ++ post) := by
    intro t post ht
    rw [ht, Heading.text]
    simp [Reader.ofText, Cursor.ofText]
  have hfresh : (Reader.ofText t : Reader Kind).Fresh .newline := ⟨rfl, fun _ h => by cases h⟩
  obtain ⟨nls, e, hrun, hnls, he, herest, hreach⟩ :=
    skim_alike g.preamble hfresh (hsplit hknown) (hsplit ht) hclean
  obtain ⟨header, hlexed, hkind, hprev, hseen, hrest⟩ :=
    lexStep_header_word he herest g.word_header hpost hw
  have hword : e.cursor.rest ≠ [] := by
    rw [herest]
    exact List.append_ne_nil_of_left_ne_nil g.word_header.ne_nil _
  have hmode : modeOf (e.after (lexStep e)) = modeOf (rowReader (some headerToken) []) := by
    rw [modeOf, hprev, Option.elim_some, hkind]
    rfl
  obtain ⟨hshapes, herrors⟩ := run_page hseen hmode hrest
  have hall : tokenize t =
      ⟨nls, []⟩ ++ (⟨[header], []⟩ ++ (Scan.run lexStep .eof (e.after (lexStep e))).lexed) := by
    rw [tokenize, scan, hrun, run_cons hword, hlexed]
  have herror : (lexStep e).errors = [] := congrArg Lexed.errors hlexed
  exact ⟨nls, _, header, by rw [hall]; rfl, hnls, hkind, hshapes, by rw [hall]; exact herrors, _,
    hreach.tail ⟨hword, lexStep_moves hword, herror, rfl⟩, hrest, rfl⟩

end DiagramLint.Sequence
