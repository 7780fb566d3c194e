-- Passes keep the heading: a pass whose diagnostics all stand behind the
-- heading makes only edits that spare it, so a run of passes ends with a
-- text that opens as the first one did. Linting with a grammar keeps behind
-- the heading when each of its stages does: moving diagnostics into the text
-- does not move them back over it.
import DiagramLint.Proofs.Grammar.Stages
import DiagramLint.Proofs.Header.Repairs
import DiagramLint.Proofs.Repair.Convergence

namespace DiagramLint

open Text

/-! ## Blocks open behind the heading -/

namespace Heading

variable {g : Heading} {t : Text} {d : Diagnostic}

/-- A line that starts with a header word is significant. -/
theorem significant_of_firstWord {line : Text} (h : IsHeaderWord line.trim.firstWord) :
    significant line = true := by
  unfold significant
  cases htrim : line.trim with
  | nil =>
    rw [htrim] at h
    exact absurd rfl h.ne_nil
  | cons c rest =>
    rw [htrim, firstWord_eq, List.takeWhile_cons] at h
    have hc : c ≠ '%' := by
      rintro rfl
      exact absurd (h.ident '%' (by simp [show endsWord '%' = false by decide])) (by decide)
    simp [startsWith, List.isPrefixOf, hc.symm]

/-- A line whose first word is a header word, but not that of the heading, stands below it. -/
theorem Opens.line_lt_of_firstWord (hg : g.Opens t) {n : Nat} {line : Text} (hn : 0 < n)
    (hget : (t.lines.map Line.content)[n - 1]? = some line)
    (hword : IsHeaderWord line.trim.firstWord) (hne : line.trim.firstWord ≠ g.word) :
    g.line < n := by
  obtain ⟨ls, tail, below, hlines, hlen, hpassed, htail, -⟩ := hg.exists_lines
  rw [hlines, List.getElem?_map] at hget
  obtain ⟨l, hl, rfl⟩ := Option.map_eq_some_iff.mp hget
  by_contra hnot
  rcases Nat.lt_or_eq_of_le (Nat.not_lt.mp hnot) with hlt | heq
  · rw [List.getElem?_append_left (by omega)] at hl
    have hsig := significant_of_firstWord hword
    rw [hpassed l (List.mem_of_getElem? hl)] at hsig
    cases hsig
  · rw [List.getElem?_append_right (by omega), show n - 1 - ls.length = 0 by omega,
      List.getElem?_cons_zero] at hl
    have hfirst := (header_line g.lead_blank g.word_header htail).2
    rw [← List.append_assoc] at hfirst
    rw [← Option.some.inj hl] at hne hword
    unfold wordOf? at hfirst
    split at hfirst
    · cases hfirst
    · exact hne (String.ofList_injective (Option.some.inj hfirst))

/-- The end of a block goes below the header line, on which no block opens. -/
theorem Opens.closeBlock_below (hg : g.Opens t) {words : List String}
    (hw : ∀ w ∈ words, IsHeaderWord w.toList ∧ w.toList ≠ g.word) {closer : Text} {p : Proposal}
    (h : closeBlock (.keywords words) closer t d = some p) :
    ∃ place newText, p = .atLevel .all (.insert place newText) ∧
      g.line < t.clampLine place.line := by
  obtain ⟨number, place, newText, hopen, rfl, hplace⟩ := closeBlock_eq_some h
  obtain ⟨hpos, line, hget, hopens⟩ := openLine?_spec hopen
  rw [List.reverse_reverse, List.getElem?_map] at hget
  obtain ⟨content, hcontent, rfl⟩ := Option.map_eq_some_iff.mp hget
  have hmem : String.ofList content.trim.firstWord ∈ words := List.contains_iff_mem.mp hopens
  obtain ⟨hword, hne⟩ := hw _ hmem
  rw [String.toList_ofList] at hword hne
  have hline : (t.lines.map Line.content)[number - 1]? = some content := by
    rw [List.getElem?_take] at hcontent
    split at hcontent
    · exact hcontent
    · cases hcontent
  have hlt := hg.line_lt_of_firstWord hpos hline hword hne
  have hcount : number ≤ t.lineCount := by
    obtain ⟨hlt, -⟩ := List.getElem?_eq_some_iff.mp hline
    rw [List.length_map] at hlt
    unfold lineCount
    omega
  refine ⟨place, newText, rfl, ?_⟩
  unfold clampLine
  omega

theorem Opens.spares_closeBlock (hg : g.Opens t) {words : List String}
    (hw : ∀ w ∈ words, IsHeaderWord w.toList ∧ w.toList ≠ g.word) {closer : Text} {p : Proposal}
    (h : closeBlock (.keywords words) closer t d = some p) : ∀ e ∈ p.edits, g.Spares t e := by
  obtain ⟨place, newText, rfl, hbelow⟩ := hg.closeBlock_below hw h
  intro e he
  rw [List.mem_singleton.mp he]
  exact spares_of_lt_offset (hg.lt_offset_of_line_lt hbelow) (hg.lt_offset_of_line_lt hbelow)

end Heading

/-! ## The built-in repairs -/

theorem Registry.mem_foldl_register {entries : List (String × Strategy)} {r : Registry}
    {entry : String × Strategy}
    (h : entry ∈ (entries.foldl (fun r (code, s) => r.register code s) r).entries) :
    entry ∈ r.entries ∨ entry ∈ entries := by
  induction entries generalizing r with
  | nil => exact Or.inl h
  | cons e rest ih =>
    rcases ih h with h | h
    · rcases List.mem_append.mp h with h | h
      · exact Or.inl (List.mem_filter.mp h).1
      · exact Or.inr (List.mem_cons.mpr (Or.inl (List.mem_singleton.mp h)))
    · exact Or.inr (List.mem_cons_of_mem _ h)

/-- A registry made of a list has only strategies of the list. -/
theorem Registry.mem_of_get? {entries : List (String × Strategy)} {code : String} {s : Strategy}
    (h : (Registry.ofList entries).get? code = some s) : (code, s) ∈ entries := by
  obtain ⟨l₁, l₂, heq, -⟩ := List.lookup_eq_some_iff.mp h
  have hmem : (code, s) ∈ (Registry.ofList entries).entries := by
    rw [heq]
    simp
  rcases Registry.mem_foldl_register hmem with hm | hm
  · cases hm
  · exact hm

namespace Heading

variable {g : Heading} {t : Text} {d : Diagnostic}

/-- A word that heads a diagram and opens no block. -/
def HeadsDiagram (g : Heading) : Prop := ∀ w ∈ endBlockOpeners, w.toList ≠ g.word

theorem endBlockOpeners_isHeaderWord : ∀ w ∈ endBlockOpeners, IsHeaderWord w.toList := by
  intro w hw
  have hne : ∀ w ∈ endBlockOpeners, w.toList ≠ [] := by decide
  have hident : ∀ w ∈ endBlockOpeners, w.toList.all isIdentChar = true := by decide
  exact ⟨hne w hw, List.all_eq_true.mp (hident w hw)⟩

/-- The built-in repair of a diagnostic behind the heading spares it. -/
theorem Opens.spares_builtin (hg : g.Opens t) (hw : g.HeadsDiagram) (hd : g.Behind t d)
    {code : String} {s : Strategy} {p : Proposal} (hcode : d.code = some code)
    (hs : Registry.builtin.get? code = some s) (hp : s.propose t d = .ok (some p)) :
    ∀ e ∈ p.edits, g.Spares t e := by
  have hpoint := hd.point code hcode
  have hline := hd.line code hcode
  have hmem := Registry.mem_of_get? hs
  simp only [List.mem_cons, List.not_mem_nil, or_false, Prod.mk.injEq] at hmem
  rcases hmem with ⟨rfl, rfl⟩ | ⟨rfl, rfl⟩ | ⟨rfl, rfl⟩ | ⟨rfl, rfl⟩ | ⟨rfl, rfl⟩ | ⟨rfl, rfl⟩ |
    ⟨rfl, rfl⟩ | ⟨rfl, rfl⟩ | ⟨rfl, rfl⟩ | ⟨rfl, rfl⟩ | ⟨rfl, rfl⟩ | ⟨rfl, rfl⟩ | ⟨rfl, rfl⟩ |
    ⟨rfl, rfl⟩ | ⟨rfl, rfl⟩
  · exact hg.spares_replaceToken (hpoint (by decide)) hp
  · exact hg.spares_replaceToken (hpoint (by decide)) hp
  · exact hg.spares_replaceKeyword (hpoint (by decide)) (Except.ok.inj hp)
  · exact hg.spares_encodeLabel (hline (by decide)) (by decide) (by decide) hp
  · exact hg.spares_encodeLabel (hline (by decide)) (by decide) (by decide) hp
  · exact hg.spares_encodeLabel (hline (by decide)) (by decide) (by decide) hp
  · exact hg.spares_repairBracket (hline (by decide)) (by decide) hp
  · exact hg.spares_repairBracket (hline (by decide)) (by decide) hp
  · exact hg.spares_closeBlock (fun w hm => ⟨endBlockOpeners_isHeaderWord w hm, hw w hm⟩) (Except.ok.inj hp)
  · exact absurd hcode hd.no_brace
  · exact hg.spares_splitStatement (hpoint (by decide)) (Except.ok.inj hp)
  · exact hg.spares_insertText_caret (hpoint (by decide)) (Except.ok.inj hp)
  · exact hg.spares_insertText_caret (hpoint (by decide)) (Except.ok.inj hp)
  · exact hg.spares_insertText_lineEnd (hline (by decide)) (by decide) (by decide) (Except.ok.inj hp)
  · exact hg.spares_insertText_caret (hpoint (by decide)) (Except.ok.inj hp)

/-! ## Passes -/

/-- A linter whose diagnostics stand behind a heading in every text that opens with it. -/
def Guards (g : Heading) (lint : Text → Except Fault (List Diagnostic)) : Prop :=
  ∀ t, g.Opens t → ∀ ds, lint t = .ok ds → ∀ d ∈ ds, g.Behind t d

variable {lint : Text → Except Fault (List Diagnostic)} {level : Level}

theorem Opens.pass (hg : g.Opens t) (hw : g.HeadsDiagram) (hl : g.Guards lint) {u : Text}
    (h : pass lint Registry.builtin level t = .ok u) : g.Opens u := by
  obtain ⟨edits, hedits, rfl⟩ := pass_eq_ok_iff.mp h
  obtain ⟨ds, hds, hselect⟩ := passEdits_eq_ok_iff.mp hedits
  refine hg.splice ?_
  intro e he
  obtain ⟨p, ⟨d, hd, code, s, hcode, hs, hp⟩, hmem⟩ := mem_selectEdits hselect he
  exact hg.spares_builtin hw (hl t hg ds hds d hd) hcode hs hp e hmem

theorem Opens.passes (hg : g.Opens t) (hw : g.HeadsDiagram) (hl : g.Guards lint) {n : Nat}
    {u : Text} (h : passes lint Registry.builtin level n t = .ok u) : g.Opens u := by
  induction n generalizing t with
  | zero =>
    cases h
    exact hg
  | succ n ih =>
    obtain ⟨v, hv, h⟩ := bind_eq_ok_iff.mp h
    exact ih (hg.pass hw hl hv) h

/-- Repairing keeps the heading. -/
theorem Opens.converge (hg : g.Opens t) (hw : g.HeadsDiagram) (hl : g.Guards lint) {o : Outcome}
    (h : converge lint Registry.builtin t level = .ok o) : g.Opens o.fixed :=
  hg.passes hw hl (converge_runsTo h).fixed_eq

end Heading

namespace Heading

variable {g : Heading} {t : Text} {p : Position}

/-! ## Diagnostics made at a place -/

/-- A place past the heading has a line and a column already, so a diagnostic made there stays. -/
theorem Past.made (h : g.Past t p) : g.Past t ⟨max p.line 1, max p.column 1⟩ := by
  have h0 := g.line_pos
  have h1 := h.line_le
  rw [Nat.max_eq_left (by omega)]
  exact h.of_column_le (Nat.le_max_left _ _)

theorem line_le_made {n : Nat} (h : g.line ≤ n) : g.line ≤ max n 1 :=
  Nat.le_trans h (Nat.le_max_left _ _)

theorem Past.endPlace {κ : Type} {tok : Token κ} (h : g.Past t tok.place) :
    g.Past t tok.endPlace :=
  h.of_column_le (Nat.le_add_right _ _)

/-! ## Stages -/

variable {κ τ ε : Type}

/-- Every stage of linting a text with its tokens reports behind the heading. -/
structure Oversees (g : Heading) (G : Grammar κ τ ε) (t : Text) (options : LintOptions)
    (lexed : Lexed κ) : Prop where
  postLex : ∀ d ∈ hookDiagnostics (G.postLex t lexed.tokens), g.Behind t d
  errors : ∀ e ∈ (G.parse lexed.tokens).errors, g.Behind t (G.explain e t)
  analysis : ∀ tree ∈ (G.parse lexed.tokens).tree, ∀ found,
    G.analyze tree lexed.tokens options = .ok found → ∀ d ∈ found, g.Behind t d
  postParse : ∀ tree prior,
    ∀ d ∈ hookDiagnostics (G.postParse t lexed.tokens tree prior), g.Behind t d

namespace Oversees

variable {G : Grammar κ τ ε} {options : LintOptions} {lexed : Lexed κ}

/-- Linting reports behind the heading. -/
theorem report (hg : g.Opens t) (h : g.Oversees G t options lexed) :
    ∀ d ∈ (G.report t options lexed).diagnostics, g.Behind t d := by
  intro d hd
  obtain ⟨found, hfound, rfl⟩ := Grammar.exists_finding_of_mem_report hd
  refine Behind.clampTo hg ?_
  cases hfound with
  | lexical he => exact behind_of_code rfl (by decide) (by decide) (by decide)
  | postLex hpost => exact h.postLex found hpost
  | parsing hclean he => exact h.errors _ he
  | analysis hclean htree hok hmem => exact h.analysis _ htree _ hok found hmem
  | failure => exact behind_of_code rfl (by decide) (by decide) (by decide)
  | postParse tree prior hend => exact h.postParse tree prior found hend

end Oversees

end Heading

end DiagramLint
