-- The errors of the flowchart parser point at tokens it was given: a wrong
-- or missing bracket at any of them, a missing arrow, a second statement or
-- a misspelled keyword at a word. A statement takes no token that ends one,
-- and stops where one ends.
import DiagramLint.Flowchart.Parser
import DiagramLint.Proofs.Flowchart.Lexer
import DiagramLint.Proofs.Parsing.Within
import DiagramLint.Proofs.Spelling

namespace DiagramLint.Flowchart

/-- What the parser may miss behind the header. -/
def expectations : List String :=
  ["a node, 'subgraph' or 'end'", "a direction (TB, TD, BT, RL or LR)", "a node after '&'",
    "a node after the link", "a link or the end of the statement", "end of statement"]

theorem closerFor_mem (opener : String) : closerFor opener ∈ shapeClosers := by
  unfold closerFor
  split <;> decide

/-- What may be reported while the tokens left satisfy `R`: the errors about the next token satisfy
`E`, and `R` does not change as long as the statement goes on. -/
structure Admits (R : Toks → Prop) (E : ParseError → Prop) : Prop where
  shrinks : Shrinks Kind.endsStatement R
  mismatchedCloser : ∀ t ts expected, R (t :: ts) → t.kind = .shapeClose →
    expected ∈ shapeClosers → E (.mismatchedCloser t.place t.image expected)
  unclosed : ∀ t ts expected, R (t :: ts) → expected ∈ shapeClosers →
    E (.unclosed t.place expected)
  missingArrow : ∀ t ts, R (t :: ts) → t.kind.isSolid = true → E (.missingArrow t.place t.width)
  trailingStatement : ∀ t ts, R (t :: ts) → t.kind.isSolid = true → E (.trailingStatement t.place)
  unexpected : AllowsUnexpected expectations R E

theorem endsStatement_of_kind {t : Tok} {k : Kind} (h : t.kind = k)
    (hk : k.endsStatement = false) : t.kind.endsStatement = false := by
  rw [h]
  exact hk

section

variable {R : Toks → Prop} {E : ParseError → Prop}

theorem forall_mem_one {e : ParseError} (h : E e) : ∀ e' ∈ [e], E e' := by
  intro e' he
  rw [List.mem_singleton.mp he]
  exact h

/-! ## Nodes and chains -/

theorem shapeCloser_leaves (hA : Admits R E) {expected : String} (hx : expected ∈ shapeClosers)
    {ts : Toks} (h : R ts) : (shapeCloser expected ts).Leaves R E := by
  unfold shapeCloser
  split
  · exact Reading.leaves_fail h (fun _ hm => by cases hm)
  · rename_i t rest
    split
    · rename_i hk
      have hrest : R rest := hA.shrinks t rest (endsStatement_of_kind hk rfl) h
      split
      · exact Reading.leaves_ok hrest
      · exact ⟨hrest, forall_mem_one (hA.mismatchedCloser t rest _ h hk hx)⟩
    · have hunclosed := forall_mem_one (hA.unclosed t rest _ h hx)
      split
      · exact ⟨h, hunclosed⟩
      · exact Reading.leaves_fail (recover_leaves hA.shrinks h) hunclosed

theorem skipClassRef_leaves (hA : Admits R E) {ts : Toks} (h : R ts) : R (skipClassRef ts) := by
  unfold skipClassRef
  split
  · split
    · rename_i hk
      exact hA.shrinks _ _ (endsStatement_of_kind hk rfl) h
    · exact h
  · exact h

theorem shapeLabel_leaves (hA : Admits R E) {ts : Toks} (h : R ts) : R (shapeLabel ts).2 := by
  unfold shapeLabel
  split
  · split
    · rename_i hk
      refine hA.shrinks _ _ ?_ h
      rcases hk with hk | hk
      · exact endsStatement_of_kind hk rfl
      · exact endsStatement_of_kind hk rfl
    · exact h
  · exact h

theorem node_leaves (hA : Admits R E) (id : Tok) {ts : Toks} (h : R ts) :
    (node id ts).Leaves R E := by
  unfold node
  split
  · rename_i opener rest
    split
    · rename_i hk
      have hrest : R rest := hA.shrinks opener rest (endsStatement_of_kind hk rfl) h
      refine (shapeCloser_leaves hA (closerFor_mem _) (shapeLabel_leaves hA hrest)).andThen ?_
      intro _ rest hr
      exact Reading.leaves_ok (skipClassRef_leaves hA hr)
    · exact Reading.leaves_ok (skipClassRef_leaves hA h)
  · exact Reading.leaves_ok h

theorem endsStatement_of_startsNode {t : Tok} (h : startsNode t = true) :
    t.kind.endsStatement = false := by
  simp only [startsNode, Bool.or_eq_true, Bool.and_eq_true, beq_iff_eq] at h
  rcases h with hk | ⟨hk, -⟩
  · exact endsStatement_of_kind hk rfl
  · exact endsStatement_of_kind hk rfl

theorem nextNode_ok_leaves (hA : Admits R E) {expected : String} {ts rest : Toks} {t : Tok}
    (hn : nextNode expected ts = .ok (t, rest)) (h : R ts) : R rest := by
  unfold nextNode at hn
  split at hn
  · cases hn
  · split at hn
    · rename_i hs
      cases hn
      exact hA.shrinks _ _ (endsStatement_of_startsNode hs) h
    · cases hn

theorem nextNode_error_leaves (hA : Admits R E) {expected : String} (hx : expected ∈ expectations)
    {ts : Toks} {stop : Read Empty} (hn : nextNode expected ts = .error stop) (h : R ts) :
    stop.Leaves R E := by
  unfold nextNode at hn
  split at hn
  · cases hn
    exact Reading.leaves_fail h (fun _ hm => by cases hm)
  · split at hn
    · cases hn
    · cases hn
      exact Reading.leaves_fail (recover_leaves hA.shrinks h) (unexpected_leaves hA.unexpected hx h)

theorem group_leaves (hA : Admits R E) (id : Tok) {ts : Toks} (h : R ts) :
    (group id ts).Leaves R E := by
  fun_induction group id ts with
  | case1 id ts hv =>
    exact Reading.leaves_fail (node_leaves hA id h).rest (node_leaves hA id h).errors
  | case2 id ts n hv hr =>
    have hnode := node_leaves hA id h
    exact ⟨by rw [← hr]; exact hnode.rest, hnode.errors⟩
  | case3 id ts n hv amp rest hr hk stop hn =>
    have hnode := node_leaves hA id h
    have hrest : R rest :=
      hA.shrinks amp rest (endsStatement_of_kind hk rfl) (by rw [← hr]; exact hnode.rest)
    have hstop := nextNode_error_leaves hA (by decide) hn hrest
    exact Reading.leaves_fail hstop.rest (hstop.after hnode.errors).errors
  | case4 id ts n hv amp rest hr hk next rest' hn ih =>
    have hnode := node_leaves hA id h
    have hrest : R rest :=
      hA.shrinks amp rest (endsStatement_of_kind hk rfl) (by rw [← hr]; exact hnode.rest)
    exact ((ih (nextNode_ok_leaves hA hn hrest)).map _).after hnode.errors
  | case5 id ts n hv amp rest hr hk =>
    have hnode := node_leaves hA id h
    exact ⟨by rw [← hr]; exact hnode.rest, hnode.errors⟩

theorem skipEdgeLabel_leaves (hA : Admits R E) {ts : Toks} (h : R ts) : R (skipEdgeLabel ts) := by
  unfold skipEdgeLabel
  split
  · split
    · rename_i hk
      exact hA.shrinks _ _ (endsStatement_of_kind hk rfl) h
    · exact h
  · exact h

theorem chainTail_leaves (hA : Admits R E) (linked : Bool) {ts : Toks} (h : R ts) :
    (chainTail linked ts).Leaves R E := by
  fun_induction chainTail linked ts with
  | case1 => exact Reading.leaves_ok h
  | case2 linked t rest hk stop hn | case5 linked t rest hk stop hn =>
    have hrest := skipEdgeLabel_leaves hA (hA.shrinks t rest (endsStatement_of_kind hk rfl) h)
    exact Reading.leaves_fail (nextNode_error_leaves hA (by decide) hn hrest).rest
      (nextNode_error_leaves hA (by decide) hn hrest).errors
  | case3 linked t rest hk next after hn hv | case6 linked t rest hk next after hn hv =>
    have hrest := skipEdgeLabel_leaves hA (hA.shrinks t rest (endsStatement_of_kind hk rfl) h)
    have hgroup := group_leaves hA next (nextNode_ok_leaves hA hn hrest)
    exact Reading.leaves_fail hgroup.rest hgroup.errors
  | case4 linked t rest hk next after hn nodes hv ih
  | case7 linked t rest hk next after hn nodes hv ih =>
    have hrest := skipEdgeLabel_leaves hA (hA.shrinks t rest (endsStatement_of_kind hk rfl) h)
    have hgroup := group_leaves hA next (nextNode_ok_leaves hA hn hrest)
    exact ((ih hgroup.rest).map _).after hgroup.errors
  | case8 | case9 | case10 => exact Reading.leaves_ok h
  -- A word where a link should be: the error stands at that word.
  | case11 t rest hk | case13 linked t rest hk | case14 linked t rest hk =>
    exact Reading.leaves_fail (recover_leaves hA.shrinks h)
      (forall_mem_one (hA.trailingStatement t rest h (by simp [Kind.isSolid, hk])))
  | case12 linked t rest hk =>
    exact Reading.leaves_fail (recover_leaves hA.shrinks h)
      (forall_mem_one (hA.missingArrow t rest h (by simp [Kind.isSolid, hk])))
  | case15 =>
    exact Reading.leaves_fail (recover_leaves hA.shrinks h) (unexpected_leaves hA.unexpected (by decide) h)

theorem chain_leaves (hA : Admits R E) (id : Tok) {ts : Toks} (h : R ts) :
    (chain id ts).Leaves R E := by
  refine (group_leaves hA id h).andThen ?_
  intro first rest hr
  exact (chainTail_leaves hA false hr).map _

/-! ## Statements -/

theorem endStatement_leaves (hA : Admits R E) {ts : Toks} (h : R ts) :
    (∀ e ∈ (endStatement ts).1, E e) ∧ R (endStatement ts).2 := by
  unfold endStatement
  split
  · exact ⟨(fun _ hm => by cases hm), h⟩
  · exact ⟨unexpected_leaves hA.unexpected (by decide) h, recover_leaves hA.shrinks h⟩

theorem ended_leaves (hA : Admits R E) (event : Event) {ts : Toks} (h : R ts) :
    (ended event ts).Leaves R E :=
  ⟨(endStatement_leaves hA h).2, (endStatement_leaves hA h).1⟩

theorem keywordText_leaves (hA : Admits R E) {ts : Toks} (h : R ts) : R (keywordText ts).2 := by
  unfold keywordText
  split
  · split
    · rename_i hk
      exact hA.shrinks _ _ (endsStatement_of_kind hk rfl) h
    · exact h
  · exact h

theorem keywordStatement_leaves (hA : Admits R E) (t : Tok) {ts : Toks} (h : R ts) :
    (keywordStatement t ts).Leaves R E := by
  unfold keywordStatement
  split
  · exact ended_leaves hA _ (keywordText_leaves hA h)
  · exact ended_leaves hA _ h
  · split
    · split
      · rename_i hk
        exact ended_leaves hA _ (hA.shrinks _ _ (endsStatement_of_kind hk rfl) h)
      · exact Reading.leaves_fail (recover_leaves hA.shrinks h) (unexpected_leaves hA.unexpected (by decide) h)
    · exact Reading.leaves_fail h (fun _ hm => by cases hm)
  · exact ended_leaves hA _ (keywordText_leaves hA h)

theorem misspelled_mem {t : Tok} {ts : Toks} {word : String} (h : misspelled t ts = some word) :
    word ∈ misspellable := by
  unfold misspelled at h
  split at h
  · exact nearestKeyword_mem h
  · cases h

theorem statement_leaves (hA : Admits R E) {t : Tok}
    (hm : t.kind = .ident → ∀ word ∈ misspellable, E (.misspelledKeyword t.place t.image word))
    (hu : ∀ expected ∈ expectations, E (.unexpected t.place t.width (described t) expected))
    {ts : Toks} (h : R ts) : (statement t ts).Leaves R E := by
  unfold statement
  split
  · exact keywordStatement_leaves hA t h
  · rename_i hk
    split
    · rename_i word hword
      have hmem : word ∈ misspellable := misspelled_mem hword
      exact Reading.leaves_fail (recover_leaves hA.shrinks h) (forall_mem_one (hm hk word hmem))
    · exact (chain_leaves hA t h).map _
  · exact Reading.leaves_fail (recover_leaves hA.shrinks h) (forall_mem_one (hu _ (by decide)))

theorem headerDirection_leaves (hA : Admits R E) {ts : Toks} (h : R ts) :
    R (headerDirection ts).2 := by
  unfold headerDirection
  split
  · split
    · rename_i hk
      exact hA.shrinks _ _ (endsStatement_of_kind hk rfl) h
    · exact h
  · exact h

end

/-- The only error an event of a flowchart carries is an `end` without a subgraph. -/
theorem statement_event {E : ParseError → Prop} (hE : ∀ place, E (.endWithoutBlock place))
    (t : Tok) (ts : Toks) : ∀ event ∈ (statement t ts).value, event.Within E := by
  intro event he
  unfold statement keywordStatement at he
  split at he
  · split at he
    · cases he
      trivial
    · cases he
      exact hE t.place
    · split at he
      · split at he
        · cases he
          trivial
        · cases he
      · cases he
    · cases he
      trivial
  · split at he
    · cases he
    · obtain ⟨c, -, rfl⟩ := Option.map_eq_some_iff.mp he
      trivial
  · cases he

/-! ## Where a statement stops -/

/-- A chart goes on after an error where a statement ends. -/
theorem endsStatement_recovered (ts : Toks) : (kindAhead (recover ts)).endsStatement = true :=
  endsStatement_recover ts

theorem endsStatement_endStatement (ts : Toks) :
    (kindAhead (endStatement ts).2).endsStatement = true := by
  unfold endStatement
  split
  · assumption
  · exact endsStatement_recovered ts

theorem shapeCloser_stops {expected : String} {ts : Toks}
    (h : (shapeCloser expected ts).value = none) :
    (kindAhead (shapeCloser expected ts).rest).endsStatement = true := by
  unfold shapeCloser at h ⊢
  split
  · rfl
  · simp only at h
    split
    · rename_i hk
      rw [if_pos hk] at h
      split at h <;> cases h
    · rename_i hk
      rw [if_neg hk] at h
      split
      · rename_i hends
        rw [if_pos hends] at h
        cases h
      · exact endsStatement_recovered _

theorem node_stops {id : Tok} {ts : Toks} (h : (node id ts).value = none) :
    (kindAhead (node id ts).rest).endsStatement = true := by
  unfold node at h ⊢
  split
  · rename_i opener rest
    simp only at h
    split
    · rename_i hk
      rw [if_pos hk] at h
      simp only [Reading.andThen] at h ⊢
      split
      · rename_i hv
        exact shapeCloser_stops hv
      · rename_i hv
        rw [hv] at h
        cases h
    · rename_i hk
      rw [if_neg hk] at h
      cases h
  · cases h

theorem nextNode_stops {expected : String} {ts : Toks} {stop : Read Empty}
    (h : nextNode expected ts = .error stop) : (kindAhead stop.rest).endsStatement = true := by
  unfold nextNode at h
  split at h
  · cases h
    rfl
  · split at h
    · cases h
    · cases h
      exact endsStatement_recovered _

theorem group_stops {id : Tok} {ts : Toks} (h : (group id ts).value = none) :
    (kindAhead (group id ts).rest).endsStatement = true := by
  fun_induction group id ts with
  | case1 id ts hv => exact node_stops hv
  | case2 => cases h
  | case3 id ts n hv amp rest hr hk stop hn => exact nextNode_stops hn
  | case4 id ts n hv amp rest hr hk next rest' hn ih =>
    exact ih (by simpa [Reading.after, Reading.map] using h)
  | case5 => cases h

theorem chainTail_stops (linked : Bool) (ts : Toks) :
    (kindAhead (chainTail linked ts).rest).endsStatement = true := by
  fun_induction chainTail linked ts with
  | case1 => rfl
  | case2 linked t rest hk stop hn | case5 linked t rest hk stop hn => exact nextNode_stops hn
  | case3 linked t rest hk next after hn hv | case6 linked t rest hk next after hn hv =>
    exact group_stops hv
  | case4 linked t rest hk next after hn nodes hv ih
  | case7 linked t rest hk next after hn nodes hv ih => exact ih
  | case8 _ t rest hk | case9 _ t rest hk | case10 _ t rest hk =>
    change t.kind.endsStatement = true
    rw [hk]
    rfl
  | case11 | case12 | case13 | case14 | case15 => exact endsStatement_recovered _

theorem chain_stops (id : Tok) (ts : Toks) :
    (kindAhead (chain id ts).rest).endsStatement = true := by
  unfold chain Reading.andThen
  split
  · rename_i hv
    exact group_stops hv
  · exact chainTail_stops false _

/-- Whether a statement is read or not, it goes up to a token that ends one. -/
theorem statement_stops (t : Tok) (ts : Toks) :
    (kindAhead (statement t ts).rest).endsStatement = true := by
  unfold statement
  split
  · unfold keywordStatement
    split
    · exact endsStatement_endStatement _
    · exact endsStatement_endStatement _
    · split
      · split
        · exact endsStatement_endStatement _
        · exact endsStatement_recovered _
      · rfl
    · exact endsStatement_endStatement _
  · split
    · exact endsStatement_recovered _
    · exact chain_stops t ts
  · exact endsStatement_recovered _

/-! ## Errors and tokens -/

/-- The error is not about the end of a block. -/
def ParseError.InStatement : ParseError → Prop
  | .blockMissingEnd _ _ | .endWithoutBlock _ => False
  | _ => True

theorem admits_leftOf (ts : Toks) :
    Admits (LeftOf Kind.endsStatement ts) ParseError.InStatement where
  shrinks := shrinks_leftOf ts
  mismatchedCloser _ _ _ _ _ _ := trivial
  unclosed _ _ _ _ _ := trivial
  missingArrow _ _ _ _ := trivial
  trailingStatement _ _ _ _ := trivial
  unexpected _ _ _ _ _ := trivial

/-- A statement takes no token that ends one, and reports nothing about the end of a block. -/
theorem statement_takes (t : Tok) (ts : Toks) :
    (statement t ts).Leaves (LeftOf Kind.endsStatement ts) ParseError.InStatement :=
  statement_leaves (admits_leftOf ts) (fun _ _ _ => trivial) (fun _ _ => trivial) (leftOf_self ts)

theorem endsStatement_of_ahead {ts rest : Toks} {t : Tok} (hs : skipSeparators ts = t :: rest)
    (hk : ¬t.kind = .eof) : t.kind.endsStatement = false := by
  have hstop := List.head?_dropWhile_not (fun t : Tok => t.kind.isSeparator) ts
  unfold skipSeparators at hs
  rw [hs] at hstop
  simp only [List.head?_cons] at hstop
  simp [Kind.endsStatement, hstop, hk]

/-- Each statement of a chart is what the parser makes of the tokens from its first one on. -/
theorem mem_statements {ts : Toks} {item : Option Event × List ParseError}
    (h : item ∈ statements ts) :
    ∃ t rest, (t :: rest) <:+ ts ∧
      item = ((statement t rest).value, (statement t rest).errors) := by
  fun_induction statements ts with
  | case1 => cases h
  | case2 => cases h
  | case3 ts t rest hs hk ih =>
    have hsuffix : (t :: rest) <:+ ts := by
      rw [← hs]
      exact List.dropWhile_suffix _
    rcases List.mem_cons.mp h with rfl | h
    · exact ⟨t, rest, hsuffix, rfl⟩
    · obtain ⟨t', rest', hlater, hitem⟩ := ih h
      have hrest := (statement_takes t rest).rest.isSuffix
      exact ⟨t', rest',
        ((hlater.trans hrest).trans (List.suffix_cons t rest)).trans hsuffix, hitem⟩

/-- The error is about a token with a property: it names its image, and where a repair makes use of
its place, it points at it. Whatever else it says are words of the grammar. -/
def ParseError.From (P : Tok → Prop) : ParseError → Prop
  | .mismatchedCloser place found expected =>
    ∃ t, P t ∧ place = t.place ∧ t.kind = .shapeClose ∧ found = t.image ∧ expected ∈ shapeClosers
  | .unclosed place expected => ∃ t, P t ∧ place = t.place ∧ expected ∈ shapeClosers
  | .missingArrow place _ | .trailingStatement place =>
    ∃ t, P t ∧ t.kind.isSolid = true ∧ place = t.place
  | .misspelledKeyword place word suggestion =>
    ∃ t, P t ∧ t.kind.isSolid = true ∧ place = t.place ∧ word = t.image ∧ suggestion ∈ misspellable
  | .unexpected _ _ found expected => ∃ t, P t ∧ found = described t ∧ expected ∈ expectations
  | .blockMissingEnd _ _ | .endWithoutBlock _ => True

theorem admits_from (P : Tok → Prop) : Admits (fun ts => ∀ t ∈ ts, P t) (ParseError.From P) where
  shrinks := shrinks_forall_mem P
  mismatchedCloser t _ _ h hk hx := ⟨t, h t List.mem_cons_self, rfl, hk, rfl, hx⟩
  unclosed t _ _ h hx := ⟨t, h t List.mem_cons_self, rfl, hx⟩
  missingArrow t _ h hs := ⟨t, h t List.mem_cons_self, hs, rfl⟩
  trailingStatement t _ h hs := ⟨t, h t List.mem_cons_self, hs, rfl⟩
  unexpected t _ h _ hx := ⟨t, h t List.mem_cons_self, rfl, hx⟩

theorem statements_keep {P : Tok → Prop} {ts : Toks} (h : ∀ t ∈ ts, P t) :
    ∀ item ∈ statements ts, (∀ event ∈ item.1, event.Within (ParseError.From P)) ∧
      ∀ e ∈ item.2, e.From P := by
  intro item hitem
  obtain ⟨t, rest, hsuffix, rfl⟩ := mem_statements hitem
  have ht : P t := h t (hsuffix.subset List.mem_cons_self)
  have hrest : ∀ t' ∈ rest, P t' := fun t' hm =>
    h t' (hsuffix.subset (List.mem_cons_of_mem _ hm))
  refine ⟨statement_event (fun _ => trivial) t rest, ?_⟩
  refine (statement_leaves (admits_from P) ?_ ?_ hrest).errors
  · intro hk word hword
    exact ⟨t, ht, by simp [Kind.isSolid, hk], rfl, rfl, hword⟩
  · exact fun expected hx => ⟨t, ht, rfl, hx⟩

/-! ## Charts -/

theorem isSeparator_of_newline {t : Tok} (h : t.kind = .newline) : t.kind.isSeparator = true := by
  rw [h]
  rfl

/-- Nothing but line ends is no chart, and no error either. -/
theorem parse_newlines {ts : Toks} (hn : ∀ t ∈ ts, t.kind = .newline) : parse ts = ⟨none, []⟩ := by
  have hs : skipSeparators ts = [] :=
    List.dropWhile_eq_nil_iff.mpr fun t hm => isSeparator_of_newline (hn t hm)
  rw [parse, hs]

/-- With the header first, the errors are about the tokens behind it, and the chart has the
header's line. -/
theorem parse_headed {P : Tok → Prop} {ts rest : Toks} {head : Tok}
    (hs : skipSeparators ts = head :: rest) (hk : head.kind = .header) (h : ∀ t ∈ rest, P t) :
    (∀ e ∈ (parse ts).errors, e.From P) ∧
      ∀ chart ∈ (parse ts).tree, chart.headerLine = head.line := by
  have hend := endStatement_leaves (admits_from P) (headerDirection_leaves (admits_from P) h)
  rw [parse, hs]
  simp only [hk, if_true]
  constructor
  · intro e he
    rcases List.mem_append.mp he with he | he
    · rcases List.mem_append.mp he with he | he
      · exact hend.1 e he
      · exact Nesting.run_errors _ _ (statements_keep hend.2) e he
    · obtain ⟨block, -, rfl⟩ := List.mem_map.mp he
      trivial
  · intro chart hc
    cases hc
    rfl

theorem parse_keeps {P : Tok → Prop} {nls : Toks} {head : Tok} {rest : Toks}
    (hn : ∀ t ∈ nls, t.kind = .newline) (hk : head.kind = .header) (h : ∀ t ∈ rest, P t) :
    (∀ e ∈ (parse (nls ++ head :: rest)).errors, e.From P) ∧
      ∀ chart ∈ (parse (nls ++ head :: rest)).tree, chart.headerLine = head.line :=
  parse_headed (dropWhile_append_cons (fun t hm => isSeparator_of_newline (hn t hm))
    (by rw [hk]; rfl)) hk h

/-- Whether there is a header or not, every error is about one of the tokens. -/
theorem parse_from {P : Tok → Prop} {ts : Toks} (h : ∀ t ∈ ts, P t) :
    ∀ e ∈ (parse ts).errors, e.From P ∨ ∃ t, P t ∧
      e = .unexpected t.place t.width (described t) "'flowchart' or 'graph' header" := by
  intro e he
  cases hs : skipSeparators ts with
  | nil =>
    rw [parse, hs] at he
    cases he
  | cons head rest =>
    have hleft : ∀ t ∈ head :: rest, P t := by
      rw [← hs]
      exact forall_mem_dropWhile h _
    by_cases hk : head.kind = .header
    · exact .inl ((parse_headed hs hk (List.forall_mem_cons.mp hleft).2).1 e he)
    · simp only [parse, hs, if_neg hk, unexpected, List.mem_singleton] at he
      exact .inr ⟨head, hleft head List.mem_cons_self, he⟩

end DiagramLint.Flowchart
