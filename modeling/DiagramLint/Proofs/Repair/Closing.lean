-- Which block the repair closes and where. Reading the lines backwards with a
-- count of ends finds the line on top of the stack that the lines build when
-- they are read forwards; the end is one more line, put before the first
-- later line that is indented no deeper than the block, or at the end.
import DiagramLint.Proofs.Repair.Frames

namespace DiagramLint

open Text

/-! ## Open blocks -/

variable {opener : BlockOpener} {closer t : Text} {d : Diagnostic} {number k : Nat}

/-- The numbers of the lines whose blocks are open once a trimmed line has been read, the last one
first. An end takes the last open block away, if there is one. -/
def readBlockLine (opener : BlockOpener) (closer : Text) (opened : List Nat) (number : Nat)
    (line : Text) : List Nat :=
  if isBlockCloser closer line then opened.tail
  else if opener.opens line then number :: opened
  else opened

/-- The numbers of the lines whose blocks are open behind some lines, the last one first. -/
def openBlockLines (opener : BlockOpener) (closer : Text) :
    (opened : List Nat) → (number : Nat) → List Text → List Nat
  | opened, _, [] => opened
  | opened, number, line :: below =>
    openBlockLines opener closer (readBlockLine opener closer opened number line) (number + 1) below

theorem openBlockLines_concat (opened : List Nat) (number : Nat) (lines : List Text)
    (line : Text) : openBlockLines opener closer opened number (lines ++ [line]) =
      readBlockLine opener closer (openBlockLines opener closer opened number lines)
        (number + lines.length) line := by
  induction lines generalizing opened number with
  | nil => rfl
  | cons first lines ih =>
    rw [List.cons_append, openBlockLines, openBlockLines, ih, List.length_cons,
      Nat.add_right_comm, Nat.add_assoc]

/-- With `depth` ends to be matched first, the scan upwards finds the open block that has as many
open blocks inside. -/
theorem openLine?_eq (opener : BlockOpener) (closer : Text) (depth : Nat) (lines : List Text) :
    openLine? opener closer depth lines.reverse =
      (openBlockLines opener closer [] 1 lines)[depth]? := by
  induction lines using List.reverseRec generalizing depth with
  | nil => rfl
  | append_singleton lines line ih =>
    rw [openBlockLines_concat, List.reverse_append, List.reverse_singleton, List.singleton_append]
    unfold readBlockLine openLine?
    split
    · rw [ih, List.getElem?_tail]
    · split
      · cases depth with
        | zero => rw [List.getElem?_cons_zero, List.length_reverse, Nat.add_comm]
        | succ depth => rw [List.getElem?_cons_succ, ← ih]
      · exact ih depth

/-! ## Indentation -/

/-- The spaces and tabs a line begins with. -/
def IsIndentation (line blanks : Text) : Prop :=
  ∃ rest, line = blanks ++ rest ∧ (∀ c ∈ blanks, c = ' ' ∨ c = '\t') ∧
    ∀ c ∈ rest.head?, c ≠ ' ' ∧ c ≠ '\t'

/-- A line is indented by `width` places, of which a tab takes four. -/
def IndentedBy (line : Text) (width : Nat) : Prop :=
  ∃ blanks, IsIndentation line blanks ∧ width = blanks.count ' ' + 4 * blanks.count '\t'

theorem isIndentation_indent (line : Text) : IsIndentation line line.indent := by
  refine ⟨line.dropWhile fun c => c == ' ' || c == '\t', ?_, ?_, ?_⟩
  · exact List.takeWhile_append_dropWhile.symm
  · intro c hc
    simpa using List.mem_takeWhile_imp hc
  · intro c hc
    have hstops := List.head?_dropWhile_not (fun c => c == ' ' || c == '\t') line
    rw [Option.mem_def.mp hc] at hstops
    simpa using hstops

theorem IsIndentation.eq_indent {line blanks : Text} (h : IsIndentation line blanks) :
    blanks = line.indent := by
  obtain ⟨rest, rfl, hblanks, hrest⟩ := h
  have hall : ∀ c ∈ blanks, (c == ' ' || c == '\t') = true := by simpa using hblanks
  rw [indent, List.takeWhile_append_of_pos hall]
  cases rest with
  | nil => simp
  | cons c rest =>
    have hc := hrest c rfl
    rw [List.takeWhile_cons_of_neg (by simpa using hc), List.append_nil]

/-- The width of spaces and tabs is that of the spaces and that of the tabs. -/
theorem indentWidth_eq_count {blanks : Text} (h : ∀ c ∈ blanks, c = ' ' ∨ c = '\t') :
    indentWidth blanks = blanks.count ' ' + 4 * blanks.count '\t' := by
  -- the sum runs from the left, so the induction is on the last character
  induction blanks using List.reverseRec with
  | nil => rfl
  | append_singleton blanks c ih =>
    have hwidth : indentWidth (blanks ++ [c]) = indentWidth blanks + if c = '\t' then 4 else 1 := by
      rw [indentWidth, List.foldl_append]
      rfl
    rw [hwidth, ih fun d hd => h d (List.mem_append_left _ hd), List.count_append,
      List.count_append]
    rcases h c (by simp) with rfl | rfl
    · simp
      omega
    · simp
      omega

theorem indentedBy_iff {line : Text} {width : Nat} :
    IndentedBy line width ↔ width = indentWidth line.indent := by
  constructor
  · rintro ⟨blanks, hblanks, rfl⟩
    rw [← hblanks.eq_indent, indentWidth_eq_count hblanks.choose_spec.2.1]
  · rintro rfl
    have hindent := isIndentation_indent line
    exact ⟨_, hindent, indentWidth_eq_count hindent.choose_spec.2.1⟩

/-! ## The line before which a block ends -/

/-- A line behind the block that is opened on line `number`: it comes later, is not blank and is
indented no deeper. -/
def EndsBlock (t : Text) (number k : Nat) : Prop :=
  number < k ∧ ∃ line width outer, t.line? k = some line ∧ (∃ c ∈ line, isWhiteSpace c = false) ∧
    IndentedBy line width ∧ IndentedBy (t.line number).content outer ∧ width ≤ outer

/-- The scan for the end of a block looks for the lines that end it. -/
theorem endsBlock_iff : EndsBlock t number k ↔ number < k ∧ ∃ line, t.line? k = some line ∧
    (!line.isBlank && indentWidth line.indent ≤ indentWidth (t.line number).content.indent) =
      true := by
  unfold EndsBlock
  simp only [indentedBy_iff, exists_and_left, exists_eq_left, Bool.and_eq_true, decide_eq_true_iff,
    isBlank, Bool.not_eq_true', List.all_eq_false, Bool.not_eq_true]

theorem line?_drop (t : Text) (number i : Nat) :
    t.line? (number + i + 1) = (t.rows.drop number)[i]? := by
  rw [line?, if_neg (by omega), List.getElem?_drop, rows, List.getElem?_map, Nat.add_sub_cancel]

/-- The lines up to the one found belong to the block, and that one ends it. -/
theorem endsBlock_of_blockBody? {body : Nat}
    (h : blockBody? (indentWidth (t.line number).content.indent) (t.rows.drop number) = some body) :
    EndsBlock t number (number + body + 1) ∧
      ∀ k, EndsBlock t number k → number + body + 1 ≤ k := by
  obtain ⟨hlt, hends, hbefore⟩ := List.findIdx?_eq_some_iff_getElem.mp h
  refine ⟨endsBlock_iff.mpr ⟨by omega, (t.rows.drop number)[body], ?_, hends⟩, ?_⟩
  · rw [line?_drop, List.getElem?_eq_getElem hlt]
  · intro k hk
    obtain ⟨hlater, line, hline, hbehind⟩ := endsBlock_iff.mp hk
    by_contra hnot
    obtain ⟨i, rfl⟩ : ∃ i, k = number + i + 1 := ⟨k - number - 1, by omega⟩
    rw [line?_drop] at hline
    obtain ⟨hi, rfl⟩ := List.getElem?_eq_some_iff.mp hline
    exact hbefore i (by omega) hbehind

/-- Without such a line no later one ends the block. -/
theorem not_endsBlock_of_blockBody?
    (h : blockBody? (indentWidth (t.line number).content.indent) (t.rows.drop number) = none) :
    ¬ EndsBlock t number k := by
  intro hk
  obtain ⟨hlater, line, hline, hbehind⟩ := endsBlock_iff.mp hk
  obtain ⟨i, rfl⟩ : ∃ i, k = number + i + 1 := ⟨k - number - 1, by omega⟩
  rw [line?_drop] at hline
  have hall := List.findIdx?_eq_none_iff.mp h line (List.mem_of_getElem? hline)
  simp_all

/-! ## Line ends -/

theorem includes_iff {s : Text} : t.includes s = true ↔ s <:+: t := by
  induction t with
  | nil => simp [includes]
  | cons c rest ih => rw [includes, Bool.or_eq_true, List.isPrefixOf_iff_prefix, ih,
      List.infix_cons_iff]

/-- How a text ends its lines: with carriage return and line feed if it has one such pair. -/
def EndsLines (t ending : Text) : Prop :=
  ['\r', '\n'] <:+: t ∧ ending = ['\r', '\n'] ∨ ¬ ['\r', '\n'] <:+: t ∧ ending = ['\n']

theorem endsLines_newline (t : Text) : EndsLines t t.newline := by
  unfold EndsLines Text.newline
  rw [← includes_iff]
  split
  · exact .inl ⟨by assumption, rfl⟩
  · exact .inr ⟨by assumption, rfl⟩

theorem count_newline (t : Text) : t.newline.count '\n' = 1 := by
  unfold Text.newline
  split
  · rfl
  · rfl

/-! ## The line put in -/

/-- The text with a line put in to end the block opened on line `number`: before the first line
behind the block; when there is none, before an empty last line, or else behind the last line. -/
inductive EndPutIn (t : Text) (number : Nat) (line : Text) : Text → Prop where
  | before {above below : Text} (hends : EndsBlock t number (above.count '\n' + 1))
      (hfirst : ∀ k, EndsBlock t number k → above.count '\n' + 1 ≤ k) (ht : t = above ++ below)
      (hwhole : above.getLast? = some '\n') :
      EndPutIn t number line (above ++ (line ++ t.newline ++ below))
  | last (hnone : ∀ k, ¬ EndsBlock t number k) (hlast : t = [] ∨ t.getLast? = some '\n') :
      EndPutIn t number line (t ++ (line ++ t.newline))
  | behind (hnone : ∀ k, ¬ EndsBlock t number k) (hlast : t ≠ [] ∧ t.getLast? ≠ some '\n') :
      EndPutIn t number line (t ++ (t.newline ++ line))

variable {line t' above row behind : Text} {below : List Text}

/-- There is one line feed more, so one line more. -/
theorem EndPutIn.lineCount_eq (h : EndPutIn t number line t') (hline : '\n' ∉ line) :
    t'.lineCount = t.lineCount + 1 := by
  have hnone := List.count_eq_zero.mpr hline
  have hone := count_newline t
  rw [lineCount_eq_count, lineCount_eq_count]
  cases h with
  | before _ _ ht _ =>
    conv_rhs => rw [ht]
    simp only [List.count_append]
    omega
  | last =>
    simp only [List.count_append]
    omega
  | behind =>
    simp only [List.count_append]
    omega

/-- The line put in is a line of the text. -/
theorem EndPutIn.mem_rows (h : EndPutIn t number line t') (hline : '\n' ∉ line)
    (hreturn : line.getLast? ≠ some '\r') : line ∈ t'.rows := by
  -- behind whole lines, the line and its end are one row
  have hrow : ∀ above below : Text, (∀ c ∈ above.getLast?, c = '\n') →
      line ∈ rows (above ++ (line ++ t.newline ++ below)) := by
    intro above below hwhole
    rw [rows_of_above hwhole, List.append_assoc, rows_append_newline t hline hreturn]
    simp
  cases h with
  | before _ _ _ hwhole =>
    apply hrow
    rw [hwhole]
    simp
  | last _ hlast =>
    rw [← List.append_nil (line ++ t.newline)]
    apply hrow
    rcases hlast with rfl | hlast
    · simp
    · rw [hlast]
      simp
  | behind =>
    have hwhole : ∀ c ∈ (t ++ t.newline).getLast?, c = '\n' := by
      unfold Text.newline
      split <;> simp
    rw [← List.append_assoc, rows_of_above hwhole, rows_of_not_mem hline]
    simp

/-! ## The repair -/

theorem getLast?_of_whole (h : ∀ c ∈ above.getLast?, c = '\n') :
    above = [] ∨ above.getLast? = some '\n' := by
  cases hlast : above.getLast? with
  | none => exact .inl (List.getLast?_eq_none_iff.mp hlast)
  | some c => exact .inr (congrArg some (h c hlast))

/-- Nothing stands behind the last row of a text. -/
theorem RowAt.eq_nil (h : RowAt t t.lineCount row above behind below) : behind = [] := by
  have hcount := h.number
  rw [lineCount_eq_count, h.text_eq, List.count_append, List.count_append] at hcount
  have hinline : '\n' ∉ row ++ behind := by
    rw [← List.count_eq_zero, List.count_append]
    omega
  have hrows := h.rows_eq row h.newline_not_mem id
  rw [rows_of_not_mem hinline, List.cons.injEq] at hrows
  simpa using hrows.1

/-- A text is put in at the start of a line. -/
theorem RowAt.applyEdits_start (h : RowAt t k row above behind below) (newText : Text) :
    t.applyEdits [.insert ⟨k, 1⟩ newText] = some (above ++ (newText ++ (row ++ behind))) :=
  (h.applyEdits_eq (x := []) (y := []) (takes_insert row newText (Nat.zero_le _))).2.2.2

/-- A text is put in at the end of a line. -/
theorem RowAt.applyEdits_stop (h : RowAt t k row above behind below) (newText : Text) :
    t.applyEdits [.insert ⟨k, row.length + 1⟩ newText] =
      some (above ++ (row ++ (newText ++ behind))) := by
  have htakes := takes_insert (n := k) row newText (Nat.le_refl _)
  rw [List.take_length] at htakes
  have hrow : RowAt t k (row ++ ([] ++ [])) above behind below := by simpa using h
  exact (hrow.applyEdits_eq htakes).2.2.2

/-- With an open block there is one edit, which puts its end in. -/
theorem closeBlock_of_open
    (h : openLine? opener closer 0 ((t.rows.take (t.clampLine d.line)).map trim).reverse =
      some number) :
    ∃ edit t', closeBlock opener closer t d = some (.atLevel .all edit) ∧
      t.applyEdits [edit] = some t' ∧
        EndPutIn t number ((t.line number).content.indent ++ closer) t' := by
  obtain ⟨hpos, -⟩ := openLine?_spec h
  have hrows : t.lines.map Line.content = t.rows := rfl
  simp only [closeBlock, hrows, h, Option.bind_eq_bind, Option.bind_some]
  cases hbody : blockBody? (indentWidth (t.line number).content.indent) (t.rows.drop number) with
  | some body =>
    obtain ⟨hends, hfirst⟩ := endsBlock_of_blockBody? hbody
    obtain ⟨hlater, row, hline, -⟩ := endsBlock_iff.mp hends
    obtain ⟨above, behind, below, hrow⟩ := exists_rowAt hline
    refine ⟨_, _, rfl, hrow.applyEdits_start _, ?_⟩
    have hnumber : above.count '\n' + 1 = number + body + 1 := hrow.number
    refine .before (hnumber ▸ hends) (hnumber ▸ hfirst) hrow.text_eq ?_
    rcases getLast?_of_whole hrow.whole with rfl | hlast
    · rw [List.count_nil] at hnumber
      omega
    · exact hlast
  | none =>
    have hnone := fun k => not_endsBlock_of_blockBody? (k := k) hbody
    obtain ⟨above, behind, below, hrow⟩ := exists_rowAt (line?_lineCount t)
    have hbehind := hrow.eq_nil
    subst hbehind
    have htext := hrow.text_eq
    rw [List.append_nil] at htext
    dsimp only
    split
    · rename_i hempty
      rw [List.isEmpty_iff] at hempty
      rw [hempty] at hrow
      rw [hempty, List.append_nil] at htext
      refine ⟨_, _, rfl, hrow.applyEdits_start _, ?_⟩
      rw [List.append_nil, List.append_nil, ← htext]
      exact .last hnone (htext ▸ getLast?_of_whole hrow.whole)
    · rename_i hempty
      rw [List.isEmpty_iff] at hempty
      refine ⟨_, _, rfl, hrow.applyEdits_stop _, ?_⟩
      rw [List.append_nil, ← List.append_assoc above, ← htext, List.append_assoc t.newline]
      refine .behind hnone ⟨?_, ?_⟩
      · rw [htext]
        simp [hempty]
      · rw [htext, List.getLast?_append_of_ne_nil _ hempty]
        exact fun hlast => hrow.newline_not_mem (List.mem_of_getLast? hlast)

/-- Without an open block there is no repair. -/
theorem closeBlock_of_none
    (h : openLine? opener closer 0 ((t.rows.take (t.clampLine d.line)).map trim).reverse = none) :
    closeBlock opener closer t d = none := by
  have hrows : t.lines.map Line.content = t.rows := rfl
  simp only [closeBlock, hrows, h, Option.bind_eq_bind, Option.bind_none]

variable {blanks : Text}

theorem newline_not_mem_indented (hindent : IsIndentation row blanks) (hcloser : '\n' ∉ closer) :
    '\n' ∉ blanks ++ closer := by
  obtain ⟨-, -, hblanks, -⟩ := hindent
  intro hmem
  rcases List.mem_append.mp hmem with hmem | hmem
  · rcases hblanks _ hmem with h | h <;> cases h
  · exact hcloser hmem

theorem getLast?_indented (hindent : IsIndentation row blanks)
    (hcloser : closer.getLast? ≠ some '\r') : (blanks ++ closer).getLast? ≠ some '\r' := by
  obtain ⟨-, -, hblanks, -⟩ := hindent
  intro hlast
  rcases List.eq_nil_or_concat closer with rfl | ⟨init, c, rfl⟩
  · rw [List.append_nil] at hlast
    rcases hblanks _ (List.mem_of_getLast? hlast) with h | h <;> cases h
  · rw [List.getLast?_append_of_ne_nil _ (by simp)] at hlast
    exact hcloser hlast

/-- The numbers of the lines whose blocks are open where a diagnostic points, the last one first. -/
def openBlocksAt (opener : BlockOpener) (closer t : Text) (d : Diagnostic) : List Nat :=
  openBlockLines opener closer [] 1 ((t.rows.take (t.clampLine d.line)).map trim)

/-- A block is closed when the lines up to that of the diagnostic leave one open, and the last one
open is taken. Its end is one line with the indentation of the block, put before the first line
behind the block or at the end of the text, and it ends as the other lines do. -/
theorem the_last_open_block_is_closed_where_it_ends (opener : BlockOpener) (closer t : Text)
    (d : Diagnostic) :
    ((Strategy.closeBlock opener closer).propose t d = .ok none ↔
      openBlocksAt opener closer t d = []) ∧
    EndsLines t t.newline ∧
    ∀ number, (openBlocksAt opener closer t d).head? = some number →
      ∃ blanks edit t', IsIndentation (t.line number).content blanks ∧
        (Strategy.closeBlock opener closer).propose t d =
          .ok (some (.atLevel .all edit)) ∧
        t.applyEdits [edit] = some t' ∧
        EndPutIn t number (blanks ++ closer) t' ∧
        ('\n' ∉ closer → t'.lineCount = t.lineCount + 1 ∧
          (closer.getLast? ≠ some '\r' → blanks ++ closer ∈ t'.rows)) := by
  have hscan : openLine? opener closer 0 ((t.rows.take (t.clampLine d.line)).map trim).reverse =
      (openBlocksAt opener closer t d).head? := by
    rw [openLine?_eq, List.head?_eq_getElem?, openBlocksAt]
  refine ⟨⟨?_, ?_⟩, endsLines_newline t, ?_⟩
  · intro h
    cases hopen : openBlocksAt opener closer t d with
    | nil => rfl
    | cons number outer =>
      rw [hopen] at hscan
      obtain ⟨edit, t', hedit, -⟩ := closeBlock_of_open hscan
      rw [Strategy.propose, hedit] at h
      cases h
  · intro h
    rw [h] at hscan
    exact congrArg _ (closeBlock_of_none hscan)
  · intro number hnumber
    obtain ⟨edit, t', hedit, happlied, hput⟩ := closeBlock_of_open (hscan.trans hnumber)
    have hindent := isIndentation_indent (t.line number).content
    refine ⟨_, edit, t', hindent, congrArg _ hedit, happlied, hput, ?_⟩
    intro hcloser
    have hline := newline_not_mem_indented hindent hcloser
    exact ⟨hput.lineCount_eq hline, fun hreturn =>
      hput.mem_rows hline (getLast?_indented hindent hreturn)⟩

/-- A loop indented by a tab, with a blank line and deeper lines below it. The last line is indented
by four spaces. -/
def tabbedLoop : Text :=
  "sequenceDiagram\n\tloop x\n\n \t A->>B: hi\n\t\tB->>A: ho\n    C->>D: x".toList

def tabbedLoopFinding : Diagnostic := { line := 9, column := 1, message := "", severity := .error }

/-- A tab is as wide as four spaces: the loop ends before the last line. -/
theorem tabbedLoop_is_closed_where_it_ends :
    (openBlocksAt (.keywords endBlockOpeners) "end".toList tabbedLoop tabbedLoopFinding).head? =
        some 2 ∧
      ∃ blanks edit t', IsIndentation (tabbedLoop.line 2).content blanks ∧
        (Strategy.closeBlock (.keywords endBlockOpeners) "end".toList).propose tabbedLoop
          tabbedLoopFinding = .ok (some (.atLevel .all edit)) ∧
        tabbedLoop.applyEdits [edit] = some t' ∧
        EndPutIn tabbedLoop 2 (blanks ++ "end".toList) t' ∧
        t'.rows = ["sequenceDiagram".toList, "\tloop x".toList, [], " \t A->>B: hi".toList,
          "\t\tB->>A: ho".toList, "\tend".toList, "    C->>D: x".toList] := by
  have hopen : (openBlocksAt (.keywords endBlockOpeners) "end".toList tabbedLoop
      tabbedLoopFinding).head? = some 2 := by decide +kernel
  have hplace : (Strategy.closeBlock (.keywords endBlockOpeners) "end".toList).propose tabbedLoop
      tabbedLoopFinding = .ok (some (.atLevel .all (.insert ⟨6, 1⟩ "\tend\n".toList))) := by
    decide +kernel
  obtain ⟨blanks, edit, t', hindent, hedit, happlied, hput, -⟩ :=
    (the_last_open_block_is_closed_where_it_ends (.keywords endBlockOpeners) "end".toList
      tabbedLoop tabbedLoopFinding).2.2 2 hopen
  obtain rfl : .insert ⟨6, 1⟩ "\tend\n".toList = edit := by
    simpa [Proposal.atLevel] using hplace.symm.trans hedit
  refine ⟨hopen, blanks, _, t', hindent, hedit, happlied, hput, ?_⟩
  have hrows : (tabbedLoop.applyEdits [.insert ⟨6, 1⟩ "\tend\n".toList]).map Text.rows =
      some ["sequenceDiagram".toList, "\tloop x".toList, [], " \t A->>B: hi".toList,
        "\t\tB->>A: ho".toList, "\tend".toList, "    C->>D: x".toList] := by decide +kernel
  rw [happlied] at hrows
  simpa using hrows

end DiagramLint
