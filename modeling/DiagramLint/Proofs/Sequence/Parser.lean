-- The errors of the sequence diagram parser point at tokens it was given: a
-- missing colon just past a receiver, a misspelled keyword at the word that
-- opens its line.
import DiagramLint.Proofs.Parsing.Within
import DiagramLint.Proofs.Sequence.Lexer
import DiagramLint.Proofs.Spelling
import DiagramLint.Sequence.Parser

namespace DiagramLint.Sequence

/-- What the parser may miss behind the header. -/
def expectations : List String :=
  ["a message, declaration or block", "a participant name", "a participant", "an arrow",
    "a note placement such as 'right of A: text'", "end of line"]

/-- The errors about blocks satisfy `E`. -/
structure Tolerates (E : ParseError → Prop) : Prop where
  blockMissingEnd : ∀ place keyword line, keyword ∈ blockKeywords →
    E (.blockMissingEnd place keyword line)
  endWithoutBlock : ∀ place, E (.endWithoutBlock place)
  branchOutsideBlock : ∀ place keyword parent, branchParent? keyword = some parent →
    E (.branchOutsideBlock place keyword parent)

section

variable {R : Toks → Prop} {E : ParseError → Prop}

theorem endsLine_of_kind {t : Tok} {k : Kind} (h : t.kind = k) (hk : k.endsLine = false) :
    t.kind.endsLine = false := by
  rw [h]
  exact hk

theorem endsLine_of_isArrow {k : Kind} (h : k.isArrow = true) : k.endsLine = false := by
  cases k <;> first | rfl | cases h

theorem trailing_leaves (hR : Shrinks Kind.endsLine R) {ts : Toks} (h : R ts) :
    R (trailing ts).2 := by
  unfold trailing
  split
  · split
    · rename_i hk
      exact hR _ _ (endsLine_of_kind hk rfl) h
    · exact h
  · exact h

/-! ## Keywords -/

theorem declaration_leaves (hR : Shrinks Kind.endsLine R)
    (hE : AllowsUnexpected expectations R E) (t : Tok) {ts : Toks} (h : R ts) : (declaration t ts).Leaves R E := by
  have ht := trailing_leaves hR h
  -- A keyword takes the text behind it, or a participant, or neither.
  have htext : ∀ {text : Option String} {rest : Toks} (s : Statement),
      trailing ts = (text, rest) → (.ok s rest : Read Statement).Leaves R E := by
    intro text rest s he
    rw [he] at ht
    exact Reading.leaves_ok ht
  unfold declaration
  split
  · split
    · exact htext _ ‹_›
    · exact refuse_leaves hR hE (by decide) h
  · split
    · exact htext _ ‹_›
    · exact refuse_leaves hR hE (by decide) h
  · split
    · split
      · rename_i hk
        exact Reading.leaves_ok (hR _ _ (endsLine_of_kind hk rfl) h)
      · exact refuse_leaves hR hE (by decide) h
    · exact refuse_leaves hR hE (by decide) h
  · split
    · split
      · rename_i hk
        exact Reading.leaves_ok (hR _ _ (endsLine_of_kind hk rfl) h)
      · exact refuse_leaves hR hE (by decide) h
    · exact refuse_leaves hR hE (by decide) h
  · split
    · exact htext _ ‹_›
    · exact refuse_leaves hR hE (by decide) h
  · exact Reading.leaves_ok ht

theorem keywordStatement_leaves (hR : Shrinks Kind.endsLine R)
    (hE : AllowsUnexpected expectations R E) (t : Tok) {ts : Toks} (h : R ts) : (keywordStatement t ts).Leaves R E := by
  unfold keywordStatement
  split
  · exact Reading.leaves_ok (trailing_leaves hR h)
  · split
    · exact Reading.leaves_ok h
    · split
      · exact Reading.leaves_ok (trailing_leaves hR h)
      · exact (declaration_leaves hR hE t h).map _

/-! ## Messages -/

theorem messageText_leaves (hR : Shrinks Kind.endsLine R) {receiver : Tok}
    (hc : E (.missingColon receiver.endPlace)) {ts : Toks} (h : R ts) :
    (messageText receiver ts).Leaves R E := by
  unfold messageText
  split
  · split
    · rename_i hk
      exact Reading.leaves_ok (trailing_leaves hR (hR _ _ (endsLine_of_kind hk rfl) h))
    · split
      · exact Reading.leaves_ok h
      · refine ⟨recover_leaves hR h, ?_⟩
        intro e he
        rw [List.mem_singleton.mp he]
        exact hc
  · exact Reading.leaves_ok h

theorem skipActivation_leaves (hR : Shrinks Kind.endsLine R) {ts : Toks} (h : R ts) :
    R (skipActivation ts) := by
  unfold skipActivation
  split
  · split
    · rename_i hk
      exact hR _ _ (endsLine_of_kind hk rfl) h
    · exact h
  · exact h

theorem withoutArrow_leaves (hR : Shrinks Kind.endsLine R)
    (hE : AllowsUnexpected expectations R E) {sender : Tok}
    (hm : ∀ word ∈ keywords, E (.misspelledKeyword sender.place sender.image word)) {ts : Toks}
    (h : R ts) : (withoutArrow sender ts).Leaves R E := by
  unfold withoutArrow
  split
  · rename_i word hword
    refine Reading.leaves_fail (recover_leaves hR h) ?_
    intro e he
    rw [List.mem_singleton.mp he]
    exact hm word (nearestKeyword_mem hword)
  · exact refuse_leaves hR hE (by decide) h

theorem message_leaves (hR : Shrinks Kind.endsLine R) (hE : AllowsUnexpected expectations R E)
    (hc : ∀ t ts, R (t :: ts) → t.kind = .ident → E (.missingColon t.endPlace)) {sender : Tok}
    {ts : Toks} (h : R ts)
    (hm : (kindAhead ts).isArrow = false →
      ∀ word ∈ keywords, E (.misspelledKeyword sender.place sender.image word)) :
    (message sender ts).Leaves R E := by
  unfold message
  split
  · rename_i arrow rest
    split
    · rename_i harrow
      have hrest := skipActivation_leaves hR (hR _ _ (endsLine_of_isArrow harrow) h)
      split
      · rename_i receiver rest' heq
        rw [heq] at hrest
        split
        · rename_i hkind
          exact (messageText_leaves hR (hc _ _ hrest hkind)
            (hR _ _ (endsLine_of_kind hkind rfl) hrest)).map _
        · exact refuse_leaves hR hE (by decide) hrest
      · rename_i heq
        rw [heq] at hrest
        exact refuse_leaves hR hE (by decide) hrest
    · rename_i harrow
      exact withoutArrow_leaves hR hE (hm (Bool.eq_false_iff.mpr harrow)) h
  · exact withoutArrow_leaves hR hE (hm rfl) h

/-! ## Statements -/

theorem statement_leaves (hR : Shrinks Kind.endsLine R) (hE : AllowsUnexpected expectations R E)
    (hc : ∀ t ts, R (t :: ts) → t.kind = .ident → E (.missingColon t.endPlace)) {t : Tok}
    {ts : Toks} (h : R ts)
    (hm : t.kind = .ident → (kindAhead ts).isArrow = false →
      ∀ word ∈ keywords, E (.misspelledKeyword t.place t.image word))
    (hu : ∀ expected ∈ expectations, E (.unexpected t.place t.width (described t) expected)) :
    (statement t ts).Leaves R E := by
  unfold statement
  split
  · exact Reading.leaves_fail h (fun _ hm => by cases hm)
  · exact endLine_leaves hR hE (by decide) (keywordStatement_leaves hR hE t h)
  · rename_i hk
    exact endLine_leaves hR hE (by decide) ((message_leaves hR hE hc h (hm hk)).map _)
  · refine endLine_leaves hR hE (by decide) (Reading.leaves_fail (recover_leaves hR h) ?_)
    intro e he
    rw [List.mem_singleton.mp he]
    exact hu _ (by decide)

/-- An event of a diagram carries an error about an `end` without a block or about a branch outside
its block, and no other. -/
theorem statement_event (hclosed : ∀ place, E (.endWithoutBlock place))
    (hbranch : ∀ place keyword parent, branchParent? keyword = some parent →
      E (.branchOutsideBlock place keyword parent)) (t : Tok) (ts : Toks) :
    ∀ event ∈ (statement t ts).value, event.Within E := by
  intro event he
  unfold statement at he
  split at he
  · cases he
  · rw [endLine_value] at he
    unfold keywordStatement at he
    split at he
    · cases he
      trivial
    · split at he
      · cases he
        exact hclosed _
      · split at he
        · rename_i parent hparent
          cases he
          exact hbranch _ _ _ hparent
        · obtain ⟨s, -, rfl⟩ := Option.map_eq_some_iff.mp he
          trivial
  · rw [endLine_value] at he
    obtain ⟨m, -, rfl⟩ := Option.map_eq_some_iff.mp he
    trivial
  · rw [endLine_value] at he
    cases he

/-- A diagram opens only blocks of its keywords, and a branch leaves the keyword as it is. -/
theorem statement_opens (t : Tok) (ts : Toks) :
    ∀ event ∈ (statement t ts).value, event.Opens (·.keyword ∈ blockKeywords) := by
  intro event he
  unfold statement at he
  split at he
  · cases he
  · rw [endLine_value] at he
    unfold keywordStatement at he
    split at he
    · rename_i hkeyword
      cases he
      exact List.contains_iff_mem.mp hkeyword
    · split at he
      · cases he
        trivial
      · split at he
        · cases he
          intro head changed hhead hchange
          dsimp only at hchange
          split at hchange
          · cases hchange
            exact hhead
          · cases hchange
        · obtain ⟨s, -, rfl⟩ := Option.map_eq_some_iff.mp he
          trivial
  · rw [endLine_value] at he
    obtain ⟨m, -, rfl⟩ := Option.map_eq_some_iff.mp he
    trivial
  · rw [endLine_value] at he
    cases he

/-- So do all its statements. -/
theorem statements_open (ts : Toks) :
    ∀ item ∈ (statements ts).1, ∀ event ∈ item.1, event.Opens (·.keyword ∈ blockKeywords) := by
  fun_induction statements ts with
  | case1 => exact fun _ hm => by cases hm
  | case2 => exact fun _ hm => by cases hm
  | case3 t rest hk later left hs ih =>
    rw [hs] at ih
    exact List.forall_mem_cons.mpr ⟨statement_opens t rest, ih⟩

/-- A property of the tokens that each statement keeps holds along all statements, and so do the
errors it brings with it. -/
theorem statements_leave (hE : Tolerates E)
    (hstep : ∀ t ts, R (t :: ts) → (statement t ts).Leaves R E) {ts : Toks} (h : R ts) :
    ∀ item ∈ (statements ts).1, (∀ event ∈ item.1, event.Within E) ∧ ∀ e ∈ item.2, E e := by
  fun_induction statements ts with
  | case1 => exact fun _ hm => by cases hm
  | case2 => exact fun _ hm => by cases hm
  | case3 t rest hk later left hs ih =>
    have hst := hstep t rest h
    intro item hm
    rcases List.mem_cons.mp hm with rfl | hm
    · exact ⟨statement_event hE.endWithoutBlock hE.branchOutsideBlock t rest, hst.errors⟩
    · rw [hs] at ih
      exact ih hst.rest item hm

/-- The blocks still open at the end are blocks of the keywords. -/
theorem unclosed_leaves (hE : Tolerates E) (ts left : Toks) :
    ∀ e ∈ unclosed (Nesting.run Statement.block {} (statements ts).1).1.blocks left, E e := by
  have hblocks := Nesting.run_blocks Statement.block (n := {}) (fun _ hm => by cases hm)
    (statements_open ts)
  intro e he
  cases left with
  | nil => cases he
  | cons eof rest =>
    obtain ⟨block, hblock, rfl⟩ := List.mem_map.mp he
    exact hE.blockMissingEnd _ _ _ (hblocks block hblock)

end

/-! ## Diagrams -/

theorem parse_newlines {ts : Toks} (hn : ∀ t ∈ ts, t.kind = .newline) : parse ts = ⟨none, []⟩ := by
  have hs : ts.dropWhile (·.kind == .newline) = [] :=
    List.dropWhile_eq_nil_iff.mpr fun t hm => beq_iff_eq.mpr (hn t hm)
  rw [parse, hs]

/-- The errors of a diagram are about its header, or come from the tokens behind it. -/
theorem parse_leaves {R : Toks → Prop} {E : ParseError → Prop} (hE : Tolerates E)
    (hstep : ∀ t ts, R (t :: ts) → (statement t ts).Leaves R E) {ts : Toks}
    (hheader : ∀ t ∈ ts,
      E (.unexpected t.place t.width (described t) "'sequenceDiagram' header"))
    (h : ∀ nls head rest, ts = nls ++ head :: rest → head.kind = .header → R rest) :
    ∀ e ∈ (parse ts).errors, E e := by
  intro e he
  unfold parse at he
  split at he
  · cases he
  · rename_i header rest hts
    have hsplit := List.takeWhile_append_dropWhile (p := (·.kind == Kind.newline)) (l := ts)
    rw [hts] at hsplit
    split at he
    · rename_i hk
      have hR := h _ header rest hsplit.symm hk
      rcases List.mem_append.mp he with he | he
      · exact Nesting.run_errors _ _ (statements_leave hE hstep hR) e he
      · exact unclosed_leaves hE _ _ e he
    · rw [List.mem_singleton.mp he]
      exact hheader header (by rw [← hsplit]; simp)

/-- The error is about a token with a property: it names its image, and where a repair makes use of
its place, it points at it. Whatever else it says are words of the grammar. -/
def ParseError.From (P : Tok → Prop) : ParseError → Prop
  | .missingColon place => ∃ t, P t ∧ t.kind.isSolid = true ∧ place = t.endPlace
  | .misspelledKeyword place word suggestion =>
    ∃ t, P t ∧ t.kind.isSolid = true ∧ place = t.place ∧ word = t.image ∧ suggestion ∈ keywords
  | .unexpected _ _ found expected => ∃ t, P t ∧ found = described t ∧ expected ∈ expectations
  | .blockMissingEnd _ keyword _ => keyword ∈ blockKeywords
  | .branchOutsideBlock _ keyword parent => branchParent? keyword = some parent
  | .endWithoutBlock _ => True

theorem tolerates_from (P : Tok → Prop) : Tolerates (ParseError.From P) :=
  ⟨fun _ _ _ h => h, fun _ => trivial, fun _ _ _ h => h⟩

/-- With the header first, the errors are about the tokens behind it. -/
theorem parse_headed {P : Tok → Prop} {ts rest : Toks} {head : Tok}
    (hs : ts.dropWhile (·.kind == .newline) = head :: rest) (hk : head.kind = .header)
    (h : ∀ t ∈ rest, P t) : ∀ e ∈ (parse ts).errors, e.From P := by
  intro e he
  rw [parse, hs] at he
  simp only [hk, if_true] at he
  have hstep : ∀ t ts, (∀ x ∈ t :: ts, P x) → (statement t ts).Within P (ParseError.From P) := by
    intro t ts hts
    have ht : P t := hts t List.mem_cons_self
    refine statement_leaves (shrinks_forall_mem P) ?_ ?_
      (fun x hx => hts x (List.mem_cons_of_mem _ hx)) ?_ ?_
    · exact fun x xs hxs expected hx => ⟨x, hxs x List.mem_cons_self, rfl, hx⟩
    · exact fun x xs hxs hident => ⟨x, hxs x List.mem_cons_self, by rw [hident]; rfl, rfl⟩
    · exact fun hident _ word hword => ⟨t, ht, by rw [hident]; rfl, rfl, rfl, hword⟩
    · exact fun expected hx => ⟨t, ht, rfl, hx⟩
  rcases List.mem_append.mp he with he | he
  · have hitems := statements_leave (R := fun ts => ∀ t ∈ ts, P t) (tolerates_from P) hstep h
    exact Nesting.run_errors _ _ hitems e he
  · exact unclosed_leaves (tolerates_from P) _ _ e he

theorem parse_keeps {P : Tok → Prop} {nls : Toks} {head : Tok} {rest : Toks}
    (hn : ∀ t ∈ nls, t.kind = .newline) (hk : head.kind = .header) (h : ∀ t ∈ rest, P t) :
    ∀ e ∈ (parse (nls ++ head :: rest)).errors, e.From P :=
  parse_headed (dropWhile_append_cons (fun t hm => beq_iff_eq.mpr (hn t hm)) (by rw [hk]; rfl))
    hk h

/-- Whether there is a header or not, every error is about one of the tokens. -/
theorem parse_from {P : Tok → Prop} {ts : Toks} (h : ∀ t ∈ ts, P t) :
    ∀ e ∈ (parse ts).errors, e.From P ∨
      ∃ t, P t ∧ e = .unexpected t.place t.width (described t) "'sequenceDiagram' header" := by
  intro e he
  cases hs : ts.dropWhile (·.kind == .newline) with
  | nil =>
    rw [parse, hs] at he
    cases he
  | cons head rest =>
    have hleft : ∀ t ∈ head :: rest, P t := by
      rw [← hs]
      exact forall_mem_dropWhile h _
    by_cases hk : head.kind = .header
    · exact .inl (parse_headed hs hk (List.forall_mem_cons.mp hleft).2 e he)
    · simp only [parse, hs, if_neg hk, unexpected, List.mem_singleton] at he
      exact .inr ⟨head, hleft head List.mem_cons_self, he⟩

/-! ## Where errors come from -/

theorem endsLine_endLine {α : Type} (r : Read α) :
    (kindAhead (endLine r).rest).endsLine = true :=
  endsStatement_endLine r

/-- A statement is a line end, or goes up to one. -/
theorem statement_rest (t : Tok) (ts : Toks) :
    t.kind = .newline ∧ (statement t ts).rest = ts ∨
      (kindAhead (statement t ts).rest).endsLine = true := by
  unfold statement
  split
  · exact .inl ⟨‹_›, rfl⟩
  · exact .inr (endsLine_endLine _)
  · exact .inr (endsLine_endLine _)
  · exact .inr (endsLine_endLine _)

/-- A missing colon is reported at a word, and a misspelled keyword at the word that opens a line,
which no arrow follows. -/
def ParseError.Stems (ts : Toks) : ParseError → Prop
  | .missingColon place => ∃ t ∈ ts, t.kind = .ident ∧ place = t.endPlace
  | .misspelledKeyword place image word => ∃ pre first t post, ts = pre ++ first :: t :: post ∧
      (first.kind = .newline ∨ first.kind = .header) ∧ t.kind = .ident ∧
      (kindAhead post).isArrow = false ∧ place = t.place ∧ image = t.image ∧ word ∈ keywords
  | .blockMissingEnd _ _ _ | .endWithoutBlock _ | .branchOutsideBlock _ _ _
  | .unexpected _ _ _ _ => True

theorem tolerates_stems (ts : Toks) : Tolerates (ParseError.Stems ts) :=
  ⟨fun _ _ _ _ => trivial, fun _ => trivial, fun _ _ _ _ => trivial⟩

/-- Tokens before which a line ends or the header stands, unless a line ends right there. -/
def AtLine (ts rest : Toks) : Prop :=
  ∃ pre first, ts = pre ++ first :: rest ∧
    (first.kind = .newline ∨ first.kind = .header ∨ (kindAhead rest).endsLine = true)

theorem statement_stems {ts rest : Toks} {t : Tok} (h : AtLine ts (t :: rest)) :
    (statement t rest).Leaves (AtLine ts) (ParseError.Stems ts) := by
  obtain ⟨pre, first, rfl, hfirst⟩ := h
  have hleaves : (statement t rest).Leaves (LeftOf Kind.endsLine rest)
      (ParseError.Stems (pre ++ first :: t :: rest)) := by
    refine statement_leaves (shrinks_leftOf rest) (fun _ _ _ _ _ => trivial) ?_
      (leftOf_self rest) ?_ (fun _ _ => trivial)
    · intro x xs hx hk
      have hmem := hx.isSuffix.subset (List.mem_cons_self (a := x) (l := xs))
      exact ⟨x, by simp [hmem], hk, rfl⟩
    · intro hk harrow word hw
      refine ⟨pre, first, t, rest, rfl, ?_, hk, harrow, rfl, rfl, hw⟩
      rcases hfirst with hfirst | hfirst | hends
      · exact .inl hfirst
      · exact .inr hfirst
      · rw [kindAhead, hk] at hends
        cases hends
  refine ⟨?_, hleaves.errors⟩
  rcases statement_rest t rest with ⟨hk, hrest⟩ | hends
  · rw [hrest]
    exact ⟨pre ++ [first], t, by simp, .inl hk⟩
  · obtain ⟨mid, hmid⟩ := hleaves.rest.isSuffix
    -- some token stands before the end of the line: the last one of the statement
    obtain ⟨init, last, hlast⟩ : ∃ init last, t :: mid = init ++ [last] := by
      rcases List.eq_nil_or_concat (t :: mid) with hnil | ⟨init, last, hlast⟩
      · cases hnil
      · exact ⟨init, last, by rw [hlast, List.concat_eq_append]⟩
    refine ⟨pre ++ first :: init, last, ?_, .inr (.inr hends)⟩
    calc pre ++ first :: t :: rest
        = pre ++ first :: (t :: mid ++ (statement t rest).rest) := by
          rw [List.cons_append, hmid]
      _ = pre ++ first :: init ++ last :: (statement t rest).rest := by
          rw [hlast]
          simp

/-- Every error of a diagram comes from the tokens it is reported at. -/
theorem parse_stems (ts : Toks) : ∀ e ∈ (parse ts).errors, e.Stems ts := by
  refine parse_leaves (tolerates_stems ts) (fun t rest => statement_stems) (fun _ _ => trivial) ?_
  rintro nls head rest rfl hk
  exact ⟨nls, head, rfl, .inr (.inl hk)⟩

end DiagramLint.Sequence
