-- Where the errors of the flowchart parser come from. Those about a statement
-- are reported by the statement, which starts right behind a separator: a
-- misspelled keyword at its first word, a wrong closing bracket behind the
-- bracket that opens the shape and its label.
import DiagramLint.Proofs.Flowchart.Parser
import DiagramLint.Proofs.Spelling

namespace DiagramLint.Flowchart

/-! ## Errors of statements -/

/-- Behind a token that ends a statement, every statement starts right behind a separator. -/
theorem mem_statements_behind {ts : Toks} (hends : (kindAhead ts).endsStatement = true)
    {item : Option Event × List ParseError} (h : item ∈ statements ts) :
    ∃ pre first t rest, ts = pre ++ first :: t :: rest ∧ first.kind.isSeparator = true ∧
      item = ((statement t rest).value, (statement t rest).errors) := by
  fun_induction statements ts with
  | case1 => cases h
  | case2 => cases h
  | case3 ts t rest hs hk ih =>
    have hsplit := List.takeWhile_append_dropWhile (p := (·.kind.isSeparator)) (l := ts)
    change _ ++ skipSeparators ts = ts at hsplit
    rw [hs] at hsplit
    rcases List.mem_cons.mp h with rfl | h
    · rcases List.eq_nil_or_concat (ts.takeWhile (·.kind.isSeparator)) with hnil | ⟨init, last, hlast⟩
      · -- without a separator the first token would be the end of the text
        rw [hnil, List.nil_append] at hsplit
        have hstop := endsStatement_of_ahead hs hk
        rw [← hsplit, kindAhead, hstop] at hends
        cases hends
      · have hsep : last.kind.isSeparator = true := by
          refine List.mem_takeWhile_imp (p := fun t : Tok => t.kind.isSeparator) (l := ts) ?_
          rw [hlast]
          simp
        refine ⟨init, last, t, rest, ?_, hsep, rfl⟩
        rw [← hsplit, hlast]
        simp
    · obtain ⟨pre, first, t', rest', hts, hsep, hitem⟩ := ih (statement_stops t rest) h
      obtain ⟨taken, htaken, -⟩ := (statement_takes t rest).rest
      refine ⟨ts.takeWhile (·.kind.isSeparator) ++ t :: (taken ++ pre), first, t', rest', ?_, hsep,
        hitem⟩
      rw [htaken, hts] at hsplit
      rw [← hsplit]
      simp [hsplit]

/-- The error is about the header, or about the end of a statement or a block. -/
def ParseError.Outer : ParseError → Prop
  | .unexpected _ _ _ _ | .blockMissingEnd _ _ | .endWithoutBlock _ => True
  | _ => False

theorem unexpected_outer (expected : String) (ts : Toks) :
    ∀ e ∈ (unexpected expected ts : List ParseError), e.Outer :=
  forall_mem_unexpected fun _ _ _ => trivial

theorem endStatement_outer (ts : Toks) : ∀ e ∈ (endStatement ts).1, e.Outer := by
  unfold endStatement
  split
  · exact fun _ he => by cases he
  · exact unexpected_outer _ ts

/-- Every other error of a chart is reported by a statement. -/
theorem exists_statement_of_mem_errors {ts : Toks} {e : ParseError} (h : e ∈ (parse ts).errors)
    (hin : ¬ e.Outer) :
    ∃ pre first t rest, ts = pre ++ first :: t :: rest ∧ first.kind.isSeparator = true ∧
      e ∈ (statement t rest).errors := by
  unfold parse at h
  split at h
  · cases h
  · rename_i header rest hts
    have hsuffix : (header :: rest) <:+ ts := by
      rw [← hts]
      exact List.dropWhile_suffix _
    split at h
    · dsimp only at h
      have hdirection : (headerDirection rest).2 <:+ rest :=
        (headerDirection_leaves (admits_leftOf rest) (leftOf_self rest)).isSuffix
      have hend := endStatement_leaves (admits_leftOf (headerDirection rest).2) (leftOf_self _)
      have hstops := endsStatement_endStatement (headerDirection rest).2
      have hleft := hend.2.isSuffix.trans hdirection
      generalize (headerDirection rest).2 = behind at h hstops hleft
      rw [List.append_assoc, List.mem_append, List.mem_append] at h
      rcases h with h | h | h
      · exact absurd (endStatement_outer behind e h) hin
      · -- an event carries only errors about the end of a block
        have hrun : ∀ e ∈ (Nesting.run wrapSubgraph {} (statements (endStatement behind).2)).2,
            e.Outer ∨ ∃ item ∈ statements (endStatement behind).2, e ∈ item.2 := by
          refine Nesting.run_errors _ _ fun item hitem => ⟨?_, fun e he => .inr ⟨item, hitem, he⟩⟩
          obtain ⟨t, rest', -, rfl⟩ := mem_statements hitem
          exact statement_event (fun _ => .inl trivial) t rest'
        rcases hrun e h with houter | ⟨item, hitem, he⟩
        · exact absurd houter hin
        · obtain ⟨pre, first, t, post, hbehind, hsep, rfl⟩ := mem_statements_behind hstops hitem
          obtain ⟨above, habove⟩ := (hleft.trans (List.suffix_cons header rest)).trans hsuffix
          refine ⟨above ++ pre, first, t, post, ?_, hsep, he⟩
          rw [← habove, hbehind, List.append_assoc]
      · obtain ⟨block, -, rfl⟩ := List.mem_map.mp h
        exact absurd trivial hin
    · exact absurd (unexpected_outer "'flowchart' or 'graph' header" (header :: rest) e h) hin

/-! ## Misspelled keywords -/

/-- The error is not about a misspelled keyword. -/
def ParseError.NoMisspelling : ParseError → Prop
  | .misspelledKeyword _ _ _ => False
  | _ => True

theorem admits_noMisspelling : Admits (fun _ => True) ParseError.NoMisspelling where
  shrinks _ _ _ _ := trivial
  mismatchedCloser _ _ _ _ _ _ := trivial
  unclosed _ _ _ _ _ := trivial
  missingArrow _ _ _ _ := trivial
  trailingStatement _ _ _ _ := trivial
  unexpected _ _ _ _ _ := trivial

/-- A statement reports a misspelled keyword only about its first word. -/
theorem statement_misspelled {t : Tok} {ts : Toks} {place : Position} {word suggestion : String}
    (h : .misspelledKeyword place word suggestion ∈ (statement t ts).errors) :
    t.kind = .ident ∧ place = t.place ∧ word = t.image ∧ misspelled t ts = some suggestion := by
  unfold statement at h
  split at h
  · have hno : (keywordStatement t ts).Leaves (fun _ => True) ParseError.NoMisspelling :=
      keywordStatement_leaves admits_noMisspelling t trivial
    exact (hno.errors _ h).elim
  · rename_i hk
    split at h
    · rename_i found hfound
      cases List.mem_singleton.mp h
      exact ⟨hk, rfl, rfl, hfound⟩
    · have hno : (chain t ts).Leaves (fun _ => True) ParseError.NoMisspelling :=
        chain_leaves admits_noMisspelling t trivial
      exact (hno.errors _ h).elim
  · cases List.mem_singleton.mp h

/-- The words around a misspelled keyword among the tokens of a chart. -/
structure Misspelled (ts : Toks) (place : Position) (word suggestion : String) (pre : Toks)
    (first tok : Tok) (post : Toks) : Prop where
  tokens : ts = pre ++ first :: tok :: post
  first_separates : first.kind.isSeparator = true
  kind : tok.kind = .ident
  place_eq : place = tok.place
  word_eq : word = tok.image
  ahead : kindAhead post = .ident ∨ kindAhead post = .direction
  suggestion_mem : suggestion ∈ misspellable

theorem Misspelled.mem {ts pre post : Toks} {place : Position} {word suggestion : String}
    {first tok : Tok} (h : Misspelled ts place word suggestion pre first tok post) : tok ∈ ts := by
  rw [h.tokens]
  simp

theorem parse_misspelled {ts : Toks} {place : Position} {word suggestion : String}
    (h : .misspelledKeyword place word suggestion ∈ (parse ts).errors) :
    ∃ pre first tok post, Misspelled ts place word suggestion pre first tok post := by
  obtain ⟨pre, first, t, post, hts, hsep, he⟩ := exists_statement_of_mem_errors h id
  obtain ⟨hk, rfl, rfl, hfound⟩ := statement_misspelled he
  unfold misspelled at hfound
  split at hfound
  · rename_i hahead
    exact ⟨pre, first, t, post, hts, hsep, hk, rfl, rfl, hahead, nearestKeyword_mem hfound⟩
  · cases hfound

/-! ## Wrong closing brackets -/

/-- The tokens of a shape that is closed by a wrong bracket: the node, the opening bracket, the
label, if there is one, and the closing bracket. -/
structure MismatchedShape (ts : Toks) (place : Position) (found expected : String)
    (opener : Tok) (label : Toks) (closer : Tok) (post : Toks) : Prop where
  tokens : ts = opener :: (label ++ closer :: post)
  opener_kind : opener.kind = .shapeOpen
  label_kind : ∀ l ∈ label, l.kind = .label ∨ l.kind = .quotedLabel
  closer_kind : closer.kind = .shapeClose
  place_eq : place = closer.place
  found_eq : found = closer.image
  expected_eq : expected = closerFor opener.image
  differ : found ≠ expected

theorem exists_shapeLabel (ts : Toks) :
    ∃ label, ts = label ++ (shapeLabel ts).2 ∧
      ∀ l ∈ label, l.kind = .label ∨ l.kind = .quotedLabel := by
  unfold shapeLabel
  split
  · split
    · rename_i t rest hk
      exact ⟨[t], rfl, by simpa using hk⟩
    · exact ⟨[], rfl, by simp⟩
  · exact ⟨[], rfl, by simp⟩

theorem shapeCloser_mismatched {closing : String} {ts : Toks} {place : Position}
    {found expected : String}
    (h : .mismatchedCloser place found expected ∈ (shapeCloser closing ts).errors) :
    ∃ closer post, ts = closer :: post ∧ closer.kind = .shapeClose ∧ place = closer.place ∧
      found = closer.image ∧ expected = closing ∧ found ≠ expected := by
  unfold shapeCloser at h
  split at h
  · cases h
  · rename_i t rest
    split at h
    · rename_i hk
      split at h
      · cases h
      · rename_i hne
        cases List.mem_singleton.mp h
        exact ⟨t, rest, rfl, hk, rfl, rfl, rfl, hne⟩
    · split at h
      · cases List.mem_singleton.mp h
      · cases List.mem_singleton.mp h

theorem node_mismatched {id : Tok} {ts : Toks} {place : Position} {found expected : String}
    (h : .mismatchedCloser place found expected ∈ (node id ts).errors) :
    ∃ opener label closer post, MismatchedShape ts place found expected opener label closer post := by
  unfold node at h
  split at h
  · rename_i opener rest
    split at h
    · rename_i hk
      obtain ⟨label, hlabel, hkinds⟩ := exists_shapeLabel rest
      have hcloser : .mismatchedCloser place found expected ∈
          (shapeCloser (closerFor opener.image) (shapeLabel rest).2).errors := by
        change _ ∈ (Reading.andThen (shapeCloser _ (shapeLabel rest).2) _).errors at h
        unfold Reading.andThen at h
        split at h
        · exact h
        · simpa [Reading.after, Reading.ok] using h
      obtain ⟨closer, post, hts, hclose, rfl, rfl, rfl, hne⟩ := shapeCloser_mismatched hcloser
      refine ⟨opener, label, closer, post, ?_, hk, hkinds, hclose, rfl, rfl, rfl, hne⟩
      rw [← hts, ← hlabel]
    · cases h
  · cases h

theorem nextNode_eq_ok {expected : String} {ts rest : Toks} {t : Tok}
    (h : nextNode expected ts = .ok (t, rest)) : ts = t :: rest ∧ startsNode t = true := by
  unfold nextNode at h
  split at h
  · cases h
  · split at h
    · rename_i hs
      cases h
      exact ⟨rfl, hs⟩
    · cases h

/-- The error is about the brackets of a node. -/
def ParseError.OfNode : ParseError → Prop
  | .mismatchedCloser _ _ _ | .unclosed _ _ => True
  | _ => False

theorem ParseError.OfNode.not_outer {e : ParseError} (h : e.OfNode) : ¬ e.Outer := by
  cases e with
  | mismatchedCloser | unclosed => exact id
  | _ => cases h

theorem nextNode_outer {expected : String} {ts : Toks} {stop : Read Empty}
    (h : nextNode expected ts = .error stop) : ∀ e ∈ stop.errors, e.Outer := by
  unfold nextNode at h
  split at h
  · cases h
    exact fun _ he => by cases he
  · rename_i t ts
    split at h
    · cases h
    · cases h
      exact unexpected_outer expected (t :: ts)

theorem keywordStatement_outer (t : Tok) (ts : Toks) :
    ∀ e ∈ (keywordStatement t ts).errors, e.Outer := by
  unfold keywordStatement
  split
  · exact endStatement_outer _
  · exact endStatement_outer _
  · split
    · rename_i value rest
      split
      · exact endStatement_outer _
      · exact unexpected_outer "a direction (TB, TD, BT, RL or LR)" (value :: rest)
    · exact fun _ he => by cases he
  · exact endStatement_outer _

/-- A node among some tokens reports the error. -/
def NodeReports (ts : Toks) (e : ParseError) : Prop :=
  ∃ id rest, (id :: rest) <:+ ts ∧ startsNode id = true ∧ e ∈ (node id rest).errors

theorem NodeReports.of_isSuffix {ts ts' : Toks} {e : ParseError} (h : NodeReports ts e)
    (hs : ts <:+ ts') : NodeReports ts' e := by
  obtain ⟨id, rest, hsuffix, hrest⟩ := h
  exact ⟨id, rest, hsuffix.trans hs, hrest⟩

theorem node_isSuffix (id : Tok) (ts : Toks) : (node id ts).rest <:+ ts :=
  (node_leaves (admits_leftOf ts) id (leftOf_self ts)).rest.isSuffix

theorem group_isSuffix (id : Tok) (ts : Toks) : (group id ts).rest <:+ ts :=
  (group_leaves (admits_leftOf ts) id (leftOf_self ts)).rest.isSuffix

theorem skipEdgeLabel_isSuffix (ts : Toks) : skipEdgeLabel ts <:+ ts :=
  (skipEdgeLabel_leaves (admits_leftOf ts) (leftOf_self ts)).isSuffix

theorem group_reports {id : Tok} {ts : Toks} (hid : startsNode id = true) {e : ParseError}
    (hnode : e.OfNode) (h : e ∈ (group id ts).errors) : NodeReports (id :: ts) e := by
  fun_induction group id ts with
  | case1 id ts hv => exact ⟨id, ts, List.suffix_rfl, hid, h⟩
  | case2 id ts n hv hr => exact ⟨id, ts, List.suffix_rfl, hid, h⟩
  | case3 id ts n hv amp rest hr hk stop hn =>
    rcases List.mem_append.mp h with h | h
    · exact ⟨id, ts, List.suffix_rfl, hid, h⟩
    · exact absurd (nextNode_outer hn e h) hnode.not_outer
  | case4 id ts n hv amp rest hr hk next rest' hn ih =>
    rcases List.mem_append.mp h with h | h
    · exact ⟨id, ts, List.suffix_rfl, hid, h⟩
    · obtain ⟨rfl, hnext⟩ := nextNode_eq_ok hn
      have hrest := node_isSuffix id ts
      rw [hr] at hrest
      exact (ih hnext h).of_isSuffix
        (((List.suffix_cons amp _).trans hrest).trans (List.suffix_cons id ts))
  | case5 id ts n hv amp rest hr hk => exact ⟨id, ts, List.suffix_rfl, hid, h⟩

theorem chainTail_reports {linked : Bool} {ts : Toks} {e : ParseError} (hnode : e.OfNode)
    (h : e ∈ (chainTail linked ts).errors) : NodeReports ts e := by
  fun_induction chainTail linked ts with
  | case1 => cases h
  | case2 linked t rest hk stop hn | case5 linked t rest hk stop hn =>
    exact absurd (nextNode_outer hn e h) hnode.not_outer
  | case3 linked t rest hk next after hn hv | case6 linked t rest hk next after hn hv =>
    obtain ⟨hts, hnext⟩ := nextNode_eq_ok hn
    have hrest := (skipEdgeLabel_isSuffix rest).trans (List.suffix_cons t rest)
    rw [hts] at hrest
    exact (group_reports hnext hnode h).of_isSuffix hrest
  | case4 linked t rest hk next after hn nodes hv ih
  | case7 linked t rest hk next after hn nodes hv ih =>
    obtain ⟨hts, hnext⟩ := nextNode_eq_ok hn
    have hrest := (skipEdgeLabel_isSuffix rest).trans (List.suffix_cons t rest)
    rw [hts] at hrest
    rcases List.mem_append.mp h with h | h
    · exact (group_reports hnext hnode h).of_isSuffix hrest
    · exact (ih h).of_isSuffix
        (((group_isSuffix next after).trans (List.suffix_cons next after)).trans hrest)
  | case8 | case9 | case10 => cases h
  -- a word where a link should be is reported itself
  | case11 | case12 | case13 | case14 =>
    rw [List.mem_singleton.mp h] at hnode
    cases hnode
  | case15 linked t rest =>
    exact absurd (unexpected_outer "a link or the end of the statement" (t :: rest) e h)
      hnode.not_outer

theorem statement_reports {t : Tok} {ts : Toks} {e : ParseError} (hnode : e.OfNode)
    (h : e ∈ (statement t ts).errors) : NodeReports (t :: ts) e := by
  unfold statement at h
  split at h
  · exact absurd (keywordStatement_outer t ts e h) hnode.not_outer
  · rename_i hk
    split at h
    · rw [List.mem_singleton.mp h] at hnode
      cases hnode
    · have hid : startsNode t = true := by simp [startsNode, hk]
      change _ ∈ (chain t ts).errors at h
      unfold chain Reading.andThen at h
      split at h
      · exact group_reports hid hnode h
      · rcases List.mem_append.mp h with h | h
        · exact group_reports hid hnode h
        · exact (chainTail_reports hnode h).of_isSuffix
            ((group_isSuffix t ts).trans (List.suffix_cons t ts))
  · exact absurd (unexpected_outer "a node, 'subgraph' or 'end'" (t :: ts) e h) hnode.not_outer

/-- A wrong closing bracket is reported by a node of the chart. -/
theorem parse_mismatched {ts : Toks} {place : Position} {found expected : String}
    (h : .mismatchedCloser place found expected ∈ (parse ts).errors) :
    ∃ pre id rest opener label closer post, ts = pre ++ id :: rest ∧ startsNode id = true ∧
      MismatchedShape rest place found expected opener label closer post := by
  obtain ⟨pre, first, t, rest, hts, -, he⟩ := exists_statement_of_mem_errors h id
  obtain ⟨id, behind, ⟨above, habove⟩, hid, hnode⟩ :=
    statement_reports (e := .mismatchedCloser place found expected) trivial he
  obtain ⟨opener, label, closer, post, hshape⟩ := node_mismatched hnode
  refine ⟨pre ++ first :: above, id, behind, opener, label, closer, post, ?_, hid, hshape⟩
  rw [hts, ← habove]
  simp

end DiagramLint.Flowchart
