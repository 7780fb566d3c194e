-- The end that a pass puts into a sequence diagram in which only ends are
-- missing. The line it closes is looked for by first words, and its place by
-- indentation. Where first words show what opens a block, the end goes behind
-- the line of a block that stays open; and where no branch behind it belongs
-- to a block from before, one end less is missing from then on.
import DiagramLint.Proofs.Linter.FreshLint
import DiagramLint.Proofs.Sequence.EndRows

namespace DiagramLint

open Text

/-! ## Rows behind a heading -/

theorem Passed.getLast? {above : Text} (h : Passed above) : ∀ c ∈ above.getLast?, c = '\n' := by
  induction h with
  | nil => exact fun c hc => by cases hc
  | line a b _ _ _ ih => exact getLast?_of_append_newline ih

/-- The rows of a text behind its header line are those of what comes behind the heading, without
the first one. -/
theorem Heading.exists_rows (g : Heading) (post : Text) :
    ∃ upTo tail below, (g.text ++ post).rows = upTo ++ below ∧ post.rows = tail :: below ∧
      upTo.length = g.text.count '\n' + 1 := by
  obtain ⟨y, c, hconcat, hc⟩ := g.exists_word_concat
  obtain ⟨tail, below, hrows⟩ := List.exists_cons_of_ne_nil (rows_ne_nil post)
  refine ⟨rowsAbove g.above ++ [g.lead ++ g.word ++ tail], tail, below, ?_, hrows, ?_⟩
  · rw [text, List.append_assoc, rows_of_above g.above_passed.getLast?,
      rows_of_first g.newline_not_mem (getLast_ne_return y hconcat hc) hrows]
    simp only [List.append_assoc, List.singleton_append]
  · rw [List.length_append, length_rowsAbove, List.length_singleton, text, List.count_append,
      List.count_eq_zero_of_not_mem g.newline_not_mem, Nat.add_zero]

namespace Sequence

section

variable {g : Heading} {t post tail : Text} {gap rest : Toks} {header : Tok} {below : List Text}

theorem wordMove_isOpening {word : String} (h : (wordMove word).isOpening = true) :
    blockKeywords.contains word = true := by
  unfold wordMove at h
  split at h
  · assumption
  · split at h
    · cases h
    · split at h
      all_goals cases h

/-- Behind the header word no block is opened on the same line. -/
theorem HasPage.first_stays (h : HasPage t post gap rest header) (hrows : post.rows = tail :: below) :
    (shapeMove (rowShapes (some headerToken) tail)).isOpening = false := by
  rw [← Bool.not_eq_true]
  intro hopens
  have hshapes := h.shapes
  rw [hrows, pageShapes] at hshapes
  cases hrow : rowShapes (some headerToken) tail with
  | nil =>
    rw [hrow] at hopens
    cases hopens
  | cons first more =>
    obtain ⟨kind, word⟩ := first
    rw [hrow] at hopens hshapes
    obtain ⟨tok, later, rfl, htok, -⟩ := List.map_eq_cons_iff.mp hshapes
    have htidy := tidy_tokenize t
    rw [h.tokens, BlockSyntax.tidy_append] at htidy
    have hrest := htidy.2.2
    rw [h.header_kind] at hrest
    have hno := (hrest.1 rfl).1
    cases kind with
    | keyword =>
      have hk : tok.kind = .keyword := congrArg Prod.fst htok
      have himage : tok.image = word := congrArg Prod.snd htok
      simp only [blockSyntax, hk, himage, beq_self_eq_true, Bool.true_and] at hno
      rw [wordMove_isOpening hopens] at hno
      cases hno
    | _ => cases hopens

end

/-! ## The line that is closed -/

/-- Every line that opens a block does so with its first word. -/
def OpensByWords (t : Text) : Prop :=
  ∀ row ∈ t.rows, (lineMove row).isOpening = true →
    (BlockOpener.keywords endBlockOpeners).opens row.trim = true

instance (t : Text) : Decidable (OpensByWords t) :=
  inferInstanceAs (Decidable (∀ row ∈ t.rows, (lineMove row).isOpening = true →
    (BlockOpener.keywords endBlockOpeners).opens row.trim = true))

section

variable {g : Heading} {t post : Text} {gap rest : Toks} {header : Tok} {number : Nat}
  {xs mid : List BlockMove} {keyword : String}

theorem OpensByWords.shows (h : OpensByWords t) {row : Text} (hm : row ∈ t.rows)
    (hclean : RowClean none row) :
    Shows (.keywords endBlockOpeners) "end".toList lineMove row where
  opens := h row hm
  closes hc := by
    rw [lineMove_of_firstWord (newline_not_mem_rows hm) hclean]
    · rfl
    · rw [isBlockCloser, if_pos (by decide)] at hc
      exact beq_iff_eq.mp hc

/-- The line that is closed is that of a block that stays open, or a later one. -/
theorem HasPage.lt_of_openLine? (h : HasPage t post gap rest header) (ht : t = g.text ++ post)
    (hwords : OpensByWords t) (hclean : OnPage RowClean (some headerToken) post.rows)
    (hmoves : pageMoves (some headerToken) post.rows = xs ++ .opens keyword :: mid)
    (hopen : BlockMove.surplus 0 mid = 0)
    (hscan : openLine? (.keywords endBlockOpeners) "end".toList 0 (t.rows.map trim).reverse =
      some number) :
    0 < xs.length ∧ xs.length ≤ post.count '\n' ∧ g.text.count '\n' + xs.length < number := by
  obtain ⟨upTo, tail, below, hall, hrows, hupTo⟩ := g.exists_rows post
  rw [← ht] at hall
  have hcount := length_rows post
  rw [lineCount_eq_count, hrows, List.length_cons, Nat.add_right_cancel_iff] at hcount
  rw [hrows] at hclean hmoves
  rw [pageMoves] at hmoves
  cases xs with
  | nil =>
    have hstays := h.first_stays hrows
    rw [(List.cons.inj hmoves).1] at hstays
    cases hstays
  | cons first xs =>
    obtain ⟨pre, later, rfl, rfl, hlater⟩ := List.map_eq_append_iff.mp (List.cons.inj hmoves).2
    obtain ⟨row, behind, rfl, hrow, rfl⟩ := List.map_eq_cons_iff.mp hlater
    have hshows : ∀ r ∈ row :: behind,
        Shows (.keywords endBlockOpeners) "end".toList lineMove r := by
      intro r hr
      refine hwords.shows ?_ (hclean.2 r (List.mem_append_right _ hr))
      rw [hall]
      exact List.mem_append_right _ (List.mem_append_right _ hr)
    rw [hall, ← List.append_assoc] at hscan
    have hlt := le_of_openLine? (hshows row List.mem_cons_self)
      (fun r hr => hshows r (List.mem_cons_of_mem _ hr)) hrow
      (Nat.le_refl 0 : 0 ≤ BlockMove.surplus 0 []) (by rwa [List.append_nil]) hscan
    rw [List.length_append, hupTo] at hlt
    rw [List.length_append, List.length_cons] at hcount
    simp only [List.length_cons, List.length_map]
    omega

end

/-! ## The edits of the pass -/

/-- Closing a block depends on the line of its diagnostic alone. -/
theorem closeBlock_congr {opener : BlockOpener} {closer t : Text} {d d' : Diagnostic}
    (h : d.line = d'.line) : closeBlock opener closer t d = closeBlock opener closer t d' := by
  rw [closeBlock, closeBlock, h]

section

variable {g : Heading} {t post : Text} {gap rest : Toks} {header : Tok} {n : Nat}
  {options : LintOptions} {d : Diagnostic} {edits : List Edit} {edit : Edit}

/-- What is reported as a missing end is one. -/
theorem exists_missingEnd (hc : (tokenize t).errors = [])
    (hd : d ∈ (grammar.report t options (tokenize t)).diagnostics)
    (hcode : d.code = some Code.blockMissingEnd) :
    ∃ place keyword openedAt,
      .blockMissingEnd place keyword openedAt ∈ (parse (tokenize t).tokens).errors ∧
        d = (explain (.blockMissingEnd place keyword openedAt)).clampTo t := by
  rcases report_diagnostics hc hd with ⟨tok, -, found, hfound, rfl⟩ | ⟨e, he, rfl⟩
  · unfold arrowFinding? at hfound
    split at hfound
    · rw [← Option.some.inj hfound] at hcode
      exact absurd (Option.some.inj hcode) (by decide)
    · cases hfound
  · cases e with
    | blockMissingEnd place keyword openedAt => exact ⟨_, _, _, he, rfl⟩
    | _ => exact absurd (Option.some.inj hcode) (by decide)

/-- A missing end is reported on the last line. -/
theorem HasPage.line_of_missingEnd (h : HasPage t post gap rest header) {place : Position}
    {keyword : String} {openedAt : Nat}
    (he : .blockMissingEnd place keyword openedAt ∈ (parse (tokenize t).tokens).errors) :
    ((explain (.blockMissingEnd place keyword openedAt)).clampTo t).line = t.lineCount := by
  have hbooks := parse_keepsBooks (terminated_tokenize t) (tidy_tokenize t) h.tokens h.gap_newline
    h.header_kind
  obtain ⟨eof, hlast, -, hends⟩ := hbooks.missingEnds
  have hmem : (place, keyword, openedAt) ∈
      (parse (tokenize t).tokens).errors.filterMap ParseError.missingEnd? :=
    List.mem_filterMap.mpr ⟨_, he, rfl⟩
  rw [hends] at hmem
  obtain ⟨block, -, hblock⟩ := List.mem_map.mp hmem
  have hplace : eof.place = place := congrArg Prod.fst hblock
  obtain ⟨l, hl⟩ := scan_finishes t
  rw [tokenize, hl] at hlast
  have htiled := lexStep_covers.run (Reader.ofText t) hl
  have hend := htiled.last_place (Cursor.at_ofText t) hlast
  change t.clampLine (max place.line 1) = _
  rw [← hplace, hend, placeAfter_line, ← lineCount_eq_count, clampLine]
  have := lineCount_pos t
  omega

/-- With nothing else wrong than missing ends, an edit of the pass closes a block or mends an
arrow. -/
theorem HasPage.change_of_mem (h : HasPage t post gap rest header) (ht : t = g.text ++ post)
    (hc : (tokenize t).errors = []) (hmiss : MissesEnds (tokenize t).tokens n)
    (hselect : selectEdits .builtin t (grammar.report t options (tokenize t)).diagnostics .all =
      .ok edits) (he : edit ∈ edits) :
    (∃ d p, d.line = t.lineCount ∧ edit ∈ p.edits ∧
        closeBlock (.keywords endBlockOpeners) "end".toList t d = some p) ∨
      ArrowChange g t (edit.resolve t, edit.newText) := by
  obtain ⟨d, hd, code, c, hcode, hcandidate, hedit⟩ := exists_candidate_of_mem_selectEdits hselect he
  rcases report_diagnostics hc hd with ⟨tok, htok, found, hfound, rfl⟩ | ⟨e, he, rfl⟩
  · right
    have hk : tok.kind = .invalidArrow := by
      unfold arrowFinding? at hfound
      split at hfound
      · assumption
      · cases hfound
    have hfcode : code = Code.seqArrowInvalid := by
      unfold arrowFinding? at hfound
      rw [if_pos hk, Option.some.injEq] at hfound
      rw [← hfound] at hcode
      exact (Option.some.inj hcode).symm
    subst hfcode
    have hp : replaceToken "->>".toList t (found.clampTo t) = .ok (some c.proposal) :=
      candidate?_propose hcandidate rfl
    obtain ⟨hterm, -⟩ := h.exists_eof
    obtain ⟨es, hlines⟩ := (areLines_page h.shapes fun x hx => newline_not_mem_rows hx).2
      (h.missesEnds_iff.mp hmiss).1
    obtain ⟨above, lead, word, gap', behind, pre, later, e, lead', ahead, hwrong, hf⟩ :=
      h.exists_wrongArrow ht ((Scan.errors_eq_nil_iff (scan_eq_finished t)).mp hc) hterm hlines htok hk
    rw [hf.edit_of_arrow hk hfound hp hedit, hf.resolve_replace]
    exact ⟨above, lead, word, gap', tok.image, behind, hwrong, rfl⟩
  · left
    cases e with
    | blockMissingEnd place keyword openedAt =>
      have hs : Registry.builtin.get? code =
          some (.closeBlock (.keywords endBlockOpeners) "end".toList) := by
        rw [← Option.some.inj hcode]
        rfl
      have hp := candidate?_propose hcandidate hs
      exact ⟨_, _, h.line_of_missingEnd he, hedit, Except.ok.inj hp⟩
    | _ => exact absurd (hmiss.1 _ he) (by simp [ParseError.missingEnd?])

/-- The pass puts in one end, and mends arrows besides. -/
theorem HasPage.exists_batch (h : HasPage t post gap rest header) (ht : t = g.text ++ post)
    (hc : (tokenize t).errors = []) (hmiss : MissesEnds (tokenize t).tokens n)
    (hline : d.line = t.lineCount)
    (hp : closeBlock (.keywords endBlockOpeners) "end".toList t d = some (.atLevel .all edit))
    (hselect : selectEdits .builtin t (grammar.report t options (tokenize t)).diagnostics .all =
      .ok edits) (he : edit ∈ edits) :
    ∃ arrows later, Batch g t arrows (edit.resolve t, edit.newText) later ∧
      t.splice edits = t.spliceFrom 0 (arrows ++ (edit.resolve t, edit.newText) :: later) := by
  have hsep : Separate (t.changes edits) := List.pairwise_map.mpr (selectEdits_apart hselect)
  have hfit := fitting_changes t edits
  have hmem := List.mem_map_of_mem (f := fun e : Edit => (e.resolve t, e.newText)) he
  obtain ⟨arrows, later, hsplit, hothers⟩ := hsep.exists_between hmem (hfit _ hmem).2.2
  -- every missing end is reported on the last line, so all of them ask for the same edit
  have harrow : ∀ c ∈ arrows ++ later, ArrowChange g t c := by
    intro c hm
    obtain ⟨hin, hne⟩ := hothers c hm
    obtain ⟨e, he', rfl⟩ := List.mem_map.mp hin
    refine (h.change_of_mem ht hc hmiss hselect he').resolve_left ?_
    rintro ⟨d', p, hline', hedit, hp'⟩
    rw [closeBlock_congr (hline'.trans hline.symm), hp] at hp'
    rw [← Option.some.inj hp'] at hedit
    rw [List.mem_singleton.mp hedit] at hne
    exact hne rfl
  have hfit' := hfit.perm (inOrder_perm _).symm
  have hord := hsep.inOrder_stop_le hfit
  rw [hsplit] at hfit' hord
  refine ⟨arrows, later, ⟨hfit', hord, fun c hm => harrow c (List.mem_append_left _ hm),
    fun c hm => harrow c (List.mem_append_right _ hm)⟩, ?_⟩
  rw [splice, hsplit]

end

/-! ## The end in its place -/

/-- No branch behind a place belongs to a block from before. -/
def KeepsBranchesFrom (t : Text) (place : Position) : Prop :=
  BlockMove.keepsBranches [] ((t.slice (t.offset place) (byteSize t)).rows.map lineMove) = true

instance (t : Text) (place : Position) : Decidable (KeepsBranchesFrom t place) :=
  inferInstanceAs (Decidable (_ = _))

section

variable {g : Heading} {t post : Text} {arrows later : List Change} {edit : Edit} {number k : Nat}

/-- The edit that closes a block behind a row of a diagram is a row there. -/
theorem Batch.exists_putIn (h : Batch g t arrows (edit.resolve t, edit.newText) later)
    (ht : t = g.text ++ post) (hplaced : EndPlaced "end".toList t number edit) (hpos : 0 < k)
    (hle : k ≤ post.count '\n') (hlt : g.text.count '\n' + k < number)
    (hbranches : KeepsBranchesFrom t edit.start) :
    ∃ post' indent above below,
      t.spliceFrom 0 (arrows ++ (edit.resolve t, edit.newText) :: later) = g.text ++ post' ∧
        (∀ c ∈ indent, c = ' ' ∨ c = '\t') ∧
        PutIn (some headerToken) (indent ++ "end".toList) k post.rows post'.rows above below ∧
        BlockMove.keepsBranches [] (below.map lineMove) = true := by
  cases hplaced with
  | @between a b indent place hsplit ha hn hi hp =>
    obtain ⟨a, rfl, rfl⟩ : ∃ a', a = g.text ++ a' ∧ post = a' ++ b := by
      rcases List.append_eq_append_iff.mp (hsplit.symm.trans ht) with ⟨more, htext, -⟩ | hcut
      · rw [htext, List.count_append] at hlt
        omega
      · exact hcut
    rw [List.count_append] at hn
    obtain ⟨post', above, below, hall, hput, hbelow⟩ :=
      h.putIn_between hi ht (getLast?_of_append ha) (show k < a.count '\n' by omega)
        (change_insert hp _)
    refine ⟨post', indent, above, below, hall, hi, hput, ?_⟩
    have hbehind : t.slice (t.offset place) (byteSize t) = b := by
      rw [hp, hsplit, slice_byteSize_append]
    rw [hbelow, ← hbehind]
    exact hbranches
  | @behind a row indent place hsplit ha hrow hne hi hp =>
    obtain ⟨a, rfl, rfl⟩ : ∃ a', a = g.text ++ a' ∧ post = a' ++ row := by
      rcases List.append_eq_append_iff.mp (hsplit.symm.trans ht) with ⟨more, -, hmore⟩ | hcut
      · rw [hmore, List.mem_append, not_or] at hrow
        rw [List.count_eq_zero_of_not_mem hrow.2] at hle
        omega
      · exact hcut
    rw [List.count_append, List.count_eq_zero_of_not_mem hrow, Nat.add_zero] at hle
    obtain ⟨post', above, hall, hput⟩ :=
      h.putIn_behind hi ht (getLast?_of_append ha) hrow hle (change_insert hp _)
    exact ⟨post', indent, above, [], hall, hi, hput, rfl⟩

end

/-! ## The law -/

/-- Where only ends are missing, closing a block leaves one end less missing and nothing else wrong,
if first words show what opens a block and no branch behind the new end belongs to a block from
before. -/
theorem closing_a_block_leaves_one_end_less_missing {t : Text} {n : Nat} (options : LintOptions)
    (hdetects : Dialect.sequence.detects t = true) (hlex : (tokenize t).errors = [])
    (hmiss : MissesEnds (tokenize t).tokens n) (hwords : OpensByWords t) :
    let lint := Dialect.sequence.diagnostics options
    ∀ edit, AcceptsEdit lint .builtin .all Code.blockMissingEnd t edit →
      KeepsBranchesFrom t edit.start →
        ∃ u, pass lint .builtin .all t = .ok u ∧ (tokenize u).errors = [] ∧
          ∃ m, MissesEnds (tokenize u).tokens m ∧ m + 1 = n := by
  intro lint edit haccepts hbranches
  obtain ⟨ds, hds, edits, hselect, hmem, d, hd, hcode, c, hcandidate, hedit⟩ := haccepts
  have hpass : pass lint .builtin .all t = .ok (t.splice edits) :=
    pass_of_passEdits (passEdits_eq_ok_iff.mpr ⟨ds, hds, hselect⟩)
  obtain rfl := Except.ok.inj ((Dialect.diagnostics_sequence t options).symm.trans hds)
  have hbuiltin : Dialect.sequence ∈ Dialect.builtin := by simp [Dialect.builtin]
  obtain ⟨g, hopens, hheads, hw⟩ := Dialect.exists_heading_of_detects hbuiltin hdetects
  obtain ⟨post, ht, hpost⟩ := hopens
  obtain ⟨gap, rest, header, hpage⟩ := exists_page hw ht hlex ht hpost
  have hclean := hpage.errors.mp hlex
  obtain ⟨hfine, around, hrun, hlength⟩ := hpage.missesEnds_iff.mp hmiss
  -- the block that is closed, and the place of its end
  have hp : closeBlock (.keywords endBlockOpeners) "end".toList t d = some c.proposal :=
    Except.ok.inj (candidate?_propose hcandidate
      (show _ = some (Strategy.closeBlock (.keywords endBlockOpeners) "end".toList) from rfl))
  obtain ⟨place, keyword, openedAt, herror, rfl⟩ := exists_missingEnd hlex hd hcode
  have hline := hpage.line_of_missingEnd herror
  obtain ⟨number, own, hscan, hproposal, hplaced⟩ := closeBlock_placed (by
    rw [hline, clampLine]
    have := lineCount_pos t
    omega) (by decide) hp
  rw [hproposal] at hp hedit
  obtain rfl := List.mem_singleton.mp hedit
  have hdepth : 0 < BlockMove.depthAfter 0 (pageMoves (some headerToken) post.rows) := by
    have hcount := (BlockMove.length_of_run hrun).1
    rw [List.length_nil] at hcount
    rw [← hcount, hlength, ← hmiss.2]
    exact List.length_pos_of_mem herror
  obtain ⟨xs, word, mid, hmoves, hopen⟩ := BlockMove.exists_open hdepth
  obtain ⟨hpos, hle, hlt⟩ := hpage.lt_of_openLine? ht hwords hclean hmoves hopen hscan
  -- the pass puts it in there
  obtain ⟨arrows, later, hbatch, hsplice⟩ := hpage.exists_batch ht hlex hmiss hline hp hselect hmem
  obtain ⟨post', indent, above, below, hresult, hi, hput, hkeeps⟩ :=
    hbatch.exists_putIn ht hplaced hpos hle hlt hbranches
  rw [← hsplice] at hresult
  obtain ⟨around', hrun', hless⟩ :=
    hput.run_end (lineMove_end hi) hmoves rfl hopen hkeeps hrun
  -- the result is read by its rows as well
  have hopens' : g.Opens (t.splice edits) :=
    Heading.Opens.pass ⟨post, ht, hpost⟩ hheads (Dialect.guards hbuiltin hw options) hpass
  obtain ⟨post₁, hpost₁, hfollows⟩ := hopens'
  obtain rfl := List.append_cancel_left (hpost₁.symm.trans hresult)
  obtain ⟨gap', rest', header', hpage'⟩ := exists_page hw ht hlex hpost₁ hfollows
  refine ⟨_, hpass, hpage'.errors.mpr ?_, around'.length, hpage'.missesEnds_iff.mpr ⟨?_, around', hrun', rfl⟩,
    hless.trans hlength⟩
  · exact hput.onPage (fun h => h.clean.mp) (rowClean_end hi) hclean
  · exact hput.onPage (fun h => h.fine) (rowFine_end hi) hfine

/-- Two blocks without an end, one in the other. -/
def openBlocks : Text := "sequenceDiagram
alt found
  loop forever
    A=>>B: ping
  B->>A: pong".toList

theorem the_inner_block_is_closed_first :
    Dialect.sequence.detects openBlocks = true ∧ (tokenize openBlocks).errors = [] ∧
      MissesEnds (tokenize openBlocks).tokens 2 ∧ OpensByWords openBlocks ∧
      AcceptsEdit (Dialect.sequence.diagnostics {}) .builtin .all Code.blockMissingEnd openBlocks
        (.insert ⟨5, 1⟩ "  end\n".toList) ∧
      KeepsBranchesFrom openBlocks ⟨5, 1⟩ ∧
      ∃ u, pass (Dialect.sequence.diagnostics {}) .builtin .all openBlocks = .ok u ∧
        (tokenize u).errors = [] ∧ ∃ m, MissesEnds (tokenize u).tokens m ∧ m + 1 = 2 := by
  have hdetects : Dialect.sequence.detects openBlocks = true := by decide +kernel
  have hlex : (tokenize openBlocks).errors = [] := by decide +kernel
  have hmiss : MissesEnds (tokenize openBlocks).tokens 2 := ⟨by decide +kernel, by decide +kernel⟩
  have hwords : OpensByWords openBlocks := by decide +kernel
  have haccepts : AcceptsEdit (Dialect.sequence.diagnostics {}) .builtin .all Code.blockMissingEnd
      openBlocks (.insert ⟨5, 1⟩ "  end\n".toList) := by decide +kernel
  have hbranches : KeepsBranchesFrom openBlocks ⟨5, 1⟩ := by decide +kernel
  exact ⟨hdetects, hlex, hmiss, hwords, haccepts, hbranches,
    closing_a_block_leaves_one_end_less_missing {} hdetects hlex hmiss hwords _ haccepts hbranches⟩

/-- A block without an end that has a branch. -/
def openBranch : Text := "sequenceDiagram
alt a
  A->>B: hi
else b
  C->>D: x".toList

/-- The end goes before the first line that is not indented deeper than the block, and with a
branch there cuts the branch off from its block. -/
theorem a_branch_is_cut_off_from_its_block :
    ¬ ∀ (t u : Text) (n : Nat) (options : LintOptions), Dialect.sequence.detects t = true →
      (tokenize t).errors = [] → MissesEnds (tokenize t).tokens n → 0 < n →
      let lint := Dialect.sequence.diagnostics options
      ∀ edit, AcceptsEdit lint .builtin .all Code.blockMissingEnd t edit →
        pass lint .builtin .all t = .ok u → ∃ m, MissesEnds (tokenize u).tokens m ∧ m < n := by
  intro h
  have hmiss : MissesEnds (tokenize openBranch).tokens 1 := ⟨by decide +kernel, by decide +kernel⟩
  obtain ⟨u, hu, hcut⟩ :
      ∃ u, pass (Dialect.sequence.diagnostics {}) .builtin .all openBranch = .ok u ∧
        ¬ ∀ e ∈ (parse (tokenize u).tokens).errors, e.missingEnd?.isSome = true := by
    decide +kernel
  obtain ⟨m, ⟨hall, -⟩, -⟩ := h openBranch u 1 {} (by decide +kernel) (by decide +kernel) hmiss
    (by decide) (.insert ⟨4, 1⟩ "end\n".toList) (by decide +kernel) hu
  exact hcut hall

end Sequence

end DiagramLint
