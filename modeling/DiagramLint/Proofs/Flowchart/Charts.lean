-- The grammar of flowcharts, and its parser: it reports nothing exactly on the
-- charts of the grammar, and then returns the chart the tokens stand for.
import DiagramLint.Proofs.Flowchart.Chains
import DiagramLint.Proofs.Parsing.Nested
import DiagramLint.Proofs.Parsing.Within

namespace DiagramLint.Flowchart

/-! ## The grammar -/

/-- The keywords with a statement form of their own. -/
def formKeywords : List String := ["subgraph", "end", "direction"]

/-- A statement that neither opens nor closes a subgraph. -/
inductive IsSimple : Toks → Statement → Prop where
  | direction {word value : Tok} (hk : word.kind = .keyword) (hi : word.image = "direction")
    (hv : value.kind = .direction) : IsSimple [word, value] (.direction word.line value.image)
  | style {word : Tok} {x : Toks} {text : Option String} (hk : word.kind = .keyword)
    (hi : word.image ∉ formKeywords) (hx : Optionally (· == .text) x text) :
    IsSimple (word :: x) (.style word.line word.image)
  | edges {x : Toks} {c : Chain} (h : IsChain x c) : IsSimple x (.edges c)

/-- The statements of a chart or of a subgraph. Line ends and semicolons stand anywhere between
them, and one of these or the end of the text behind each. -/
inductive IsBody : Toks → List Statement → Prop where
  | nil : IsBody [] []
  | gap {t : Tok} {ts : Toks} {ss : List Statement} (ht : t.kind.endsStatement = true)
    (h : IsBody ts ss) : IsBody (t :: ts) ss
  | simple {x ts : Toks} {t : Tok} {s : Statement} {ss : List Statement} (hx : IsSimple x s)
    (ht : t.kind.endsStatement = true) (h : IsBody ts ss) : IsBody (x ++ t :: ts) (s :: ss)
  | subgraph {first t last t' : Tok} {x inner ts : Toks} {text : Option String}
    {body ss : List Statement} (hf : first.kind = .keyword) (hfi : first.image = "subgraph")
    (hx : Optionally (· == .text) x text) (ht : t.kind.endsStatement = true)
    (hb : IsBody inner body) (hl : last.kind = .keyword) (hli : last.image = "end")
    (ht' : t'.kind.endsStatement = true) (h : IsBody ts ss) :
    IsBody (first :: (x ++ t :: (inner ++ last :: t' :: ts)))
      (.subgraph (text.bind subgraphId) first.place body :: ss)

/-- A flowchart: a header, with a direction or without, and its statements. -/
inductive IsChart : Toks → Chart → Prop where
  | chart {gap x ts : Toks} {header t : Tok} {direction : Option String}
    {ss : List Statement} (hg : ∀ t ∈ gap, t.kind.isSeparator = true)
    (hh : header.kind = .header) (hd : Optionally (· == .direction) x direction)
    (ht : t.kind.endsStatement = true) (hb : IsBody ts ss) :
    IsChart (gap ++ header :: (x ++ t :: ts)) ⟨header.line, direction, ss⟩

/-- One statement and what it does to the nesting of subgraphs. -/
inductive IsLine : Toks → Event → Prop where
  | opened {word : Tok} {x : Toks} {text : Option String} (hk : word.kind = .keyword)
    (hi : word.image = "subgraph") (hx : Optionally (· == .text) x text) :
    IsLine (word :: x) (.opened ⟨text.bind subgraphId, word.place⟩)
  | closed {word : Tok} (hk : word.kind = .keyword) (hi : word.image = "end") :
    IsLine [word] (.closed (.endWithoutBlock word.place))
  | placed {x : Toks} {s : Statement} (h : IsSimple x s) : IsLine x (.placed s)

/-! ## Single statements -/

theorem keywordText_eq (ts : Toks) : keywordText ts = takeOptional (· == .text) ts := by
  cases ts with
  | nil => rfl
  | cons t rest =>
    simp only [keywordText, takeOptional, beq_iff_eq]

theorem headerDirection_eq (ts : Toks) :
    headerDirection ts = takeOptional (· == .direction) ts := by
  cases ts with
  | nil => rfl
  | cons t rest =>
    simp only [headerDirection, takeOptional, beq_iff_eq]

theorem endStatement_derives {ts : Toks} (h : Terminated .eof ts) (he : (endStatement ts).1 = []) :
    (endStatement ts).2 = ts ∧ StatementEnd ts := by
  obtain ⟨t, rest, rfl⟩ := h.exists_cons
  unfold endStatement at he ⊢
  split
  · rename_i hends
    exact ⟨rfl, statementEnd_cons h hends⟩
  · rename_i hends
    rw [if_neg hends] at he
    exact absurd he (unexpected_ne_nil _ h)

theorem ended_derives (event : Event) {ts : Toks} (h : Terminated .eof ts) :
    (ended event ts).Derives (fun x e => x = [] ∧ e = event) StatementEnd ts := by
  intro he
  obtain ⟨hrest, hend⟩ := endStatement_derives h he
  refine ⟨[], event, ?_, rfl, ⟨rfl, rfl⟩, ?_⟩
  · exact hrest.symm
  · simpa [ended, hrest] using hend

theorem keywordText_derives {ts : Toks} (h : Terminated .eof ts) :
    Terminated .eof (keywordText ts).2 ∧
      ∃ x, ts = x ++ (keywordText ts).2 ∧ Optionally (· == Kind.text) x (keywordText ts).1 := by
  rw [keywordText_eq]
  exact ⟨takeOptional_terminated h rfl, takeOptional_derives _ ts⟩

/-- A statement that ends now is one line, if all its tokens together are. -/
theorem ended_line {event : Event} {x ts rest : Toks} {word : Tok} (hts : ts = x ++ rest)
    (h : Terminated .eof rest) (hl : IsLine (word :: x) event) :
    (ended event rest).Derives (fun x => IsLine (word :: x)) StatementEnd ts := by
  rw [hts]
  refine Reading.Derives.prepend x ?_
  intro he
  obtain ⟨_, _, hrest, hv, ⟨rfl, rfl⟩, hend⟩ := ended_derives event h he
  exact ⟨[], _, hrest, hv, by simpa using hl, hend⟩

theorem keywordStatement_derives {t : Tok} (ht : t.kind = .keyword) {ts : Toks}
    (h : Terminated .eof ts) :
    (keywordStatement t ts).Derives (fun x => IsLine (t :: x)) StatementEnd ts := by
  obtain ⟨hrest, x, hx, htext⟩ := keywordText_derives h
  unfold keywordStatement
  split
  · rename_i hi
    exact ended_line hx hrest (.opened ht hi htext)
  · rename_i hi
    exact ended_line (x := []) rfl h (.closed ht hi)
  · rename_i hi
    obtain ⟨value, rest, rfl⟩ := h.exists_cons
    simp only
    split
    · rename_i hv
      exact ended_line (x := [value]) rfl (h.tail (by simp [hv])) (.placed (.direction ht hi hv))
    · exact Reading.derives_of_errors (unexpected_ne_nil _ h)
  · rename_i h1 h2 h3
    refine ended_line hx hrest (.placed (.style ht ?_ htext))
    simp only [formKeywords, List.mem_cons, List.not_mem_nil, or_false, not_or]
    exact ⟨h1, h2, h3⟩

theorem statement_derives (t : Tok) {ts : Toks} (h : Terminated .eof ts) :
    (statement t ts).Derives (fun x => IsLine (t :: x)) StatementEnd ts := by
  unfold statement
  split
  · rename_i hk
    exact keywordStatement_derives hk h
  · rename_i hk
    split
    · exact Reading.derives_of_errors (by simp [Reading.fail])
    · refine (chain_derives hk h).map _ ?_
      intro x c hc
      exact .placed (.edges hc)
  · exact Reading.derives_of_errors (by simp [Reading.fail, unexpected])

theorem ended_read (event : Event) {t : Tok} (ht : t.kind.endsStatement = true) (rest : Toks) :
    ended event (t :: rest) = .ok event (t :: rest) := by
  simp [ended, endStatement, kindAhead, ht, Reading.ok]

theorem keywordText_read {x : Toks} {text : Option String} (h : Optionally (· == Kind.text) x text)
    {t : Tok} (ht : t.kind.endsStatement = true) (rest : Toks) :
    keywordText (x ++ t :: rest) = (text, t :: rest) := by
  rw [keywordText_eq]
  refine takeOptional_append h (notAhead_cons ?_)
  cases hk : t.kind <;> simp_all [Kind.endsStatement, Kind.isSeparator]

/-- A word with another word or a direction behind it starts no chain. -/
theorem chain_value_of_word {id t : Tok} (ht : t.kind = .ident ∨ t.kind = .direction) (ts : Toks) :
    (chain id (t :: ts)).value = none := by
  have hnode : node id (t :: ts) = .ok { id := id.image, place := id.place } (t :: ts) := by
    rcases ht with hk | hk <;> simp [node, skipClassRef, hk]
  have hgroup := group_one hnode (notAhead_cons (by rcases ht with hk | hk <;> simp [hk]))
  have htail : (chainTail false (t :: ts)).value = none := by
    unfold chainTail
    rcases ht with hk | hk <;> simp [hk, Reading.fail]
  simp [chain, hgroup, Reading.andThen, Reading.ok, Reading.after, Reading.map, htail]

theorem misspelled_eq_none {id : Tok} {ts : Toks} {c : Chain} {rest : Toks}
    (h : chain id ts = .ok c rest) : misspelled id ts = none := by
  unfold misspelled
  split
  · rename_i hk
    cases ts with
    | nil => simp [kindAhead] at hk
    | cons t ts =>
      have hnone : (chain id (t :: ts)).value = none := chain_value_of_word hk ts
      rw [h] at hnone
      cases hnone
  · rfl

theorem simple_read {ts : Toks} {s : Statement} (h : IsSimple ts s) :
    ∃ t x, ts = t :: x ∧ t.kind.endsStatement = false ∧
      ∀ t' rest, t'.kind.endsStatement = true →
        statement t (x ++ t' :: rest) = .ok (.placed s) (t' :: rest) := by
  cases h with
  | @direction word value hk hi hv =>
    refine ⟨word, [value], rfl, by simp [hk, Kind.endsStatement, Kind.isSeparator], ?_⟩
    intro t' rest ht'
    simp [statement, keywordStatement, hk, hi, hv, ended_read _ ht']
  | @style word x text hk hi hx =>
    refine ⟨word, x, rfl, by simp [hk, Kind.endsStatement, Kind.isSeparator], ?_⟩
    intro t' rest ht'
    simp only [formKeywords, List.mem_cons, List.not_mem_nil, or_false, not_or] at hi
    simp [statement, keywordStatement, hk, hi, keywordText_read hx ht', ended_read _ ht']
  | @edges x c hc =>
    obtain ⟨id, x, rfl, hid, hread⟩ := chain_read hc
    refine ⟨id, x, rfl, by simp [hid, Kind.endsStatement, Kind.isSeparator], ?_⟩
    intro t' rest ht'
    have hchain := hread t' rest ht'
    simp [statement, hid, misspelled_eq_none hchain, hchain, Reading.map, Reading.ok]

theorem statement_read {ts : Toks} {event : Event} (h : IsLine ts event) :
    ∃ t x, ts = t :: x ∧ t.kind.endsStatement = false ∧
      ∀ t' rest, t'.kind.endsStatement = true →
        statement t (x ++ t' :: rest) = .ok event (t' :: rest) := by
  cases h with
  | @opened word x text hk hi hx =>
    refine ⟨word, x, rfl, by simp [hk, Kind.endsStatement, Kind.isSeparator], ?_⟩
    intro t' rest ht'
    simp [statement, keywordStatement, hk, hi, keywordText_read hx ht', ended_read _ ht']
  | @closed word hk hi =>
    refine ⟨word, [], rfl, by simp [hk, Kind.endsStatement, Kind.isSeparator], ?_⟩
    intro t' rest ht'
    simp [statement, keywordStatement, hk, hi, ended_read _ ht']
  | placed hs => exact simple_read hs

/-! ## All statements -/

/-- The statements of a chart, one after the other. -/
abbrev AreLines : Toks → List Event → Prop := Lines Kind.endsStatement IsLine

theorem line_start {x : Toks} {event : Event} (h : IsLine x event) :
    ∃ t y, x = t :: y ∧ t.kind.endsStatement = false := by
  obtain ⟨t, y, hx, ht, -⟩ := statement_read h
  exact ⟨t, y, hx, ht⟩

theorem skipSeparators_eq (ts : Toks) :
    ∃ gap, ts = gap ++ skipSeparators ts ∧ ∀ t ∈ gap, t.kind.isSeparator = true := by
  refine ⟨ts.takeWhile (·.kind.isSeparator), List.takeWhile_append_dropWhile.symm, ?_⟩
  intro t ht
  exact List.all_eq_true.mp List.all_takeWhile t ht

theorem skipSeparators_cons {t : Tok} (ht : t.kind.isSeparator = false) (ts : Toks) :
    skipSeparators (t :: ts) = t :: ts := by
  simp [skipSeparators, ht]

theorem skipSeparators_append {gap : Toks} (hg : ∀ t ∈ gap, t.kind.isSeparator = true) {t : Tok}
    (ht : t.kind.isSeparator = false) (ts : Toks) : skipSeparators (gap ++ t :: ts) = t :: ts :=
  (List.dropWhile_append_of_pos hg).trans (skipSeparators_cons ht ts)

theorem endsStatement_of_separator {k : Kind} (h : k.isSeparator = true) :
    k.endsStatement = true := by
  simp [Kind.endsStatement, h]

theorem statements_lines {ts : Toks} (h : Terminated .eof ts)
    (he : ∀ item ∈ statements ts, item.2 = []) :
    AreLines ts ((statements ts).filterMap (·.1)) := by
  fun_induction statements ts with
  | case1 ts hs =>
    have hskip := h.dropWhile (p := Kind.isSeparator) rfl
    exact absurd hs hskip.ne_nil
  | case2 ts t rest hs hk =>
    obtain ⟨gap, hts, hgap⟩ := skipSeparators_eq ts
    rw [hs] at hts
    subst hts
    have hrest : rest = [] := h.of_append.eq_nil hk
    subst hrest
    exact Lines.gaps (fun t ht => endsStatement_of_separator (hgap t ht))
      (.gap (by simp [hk, Kind.endsStatement]) .nil)
  | case3 ts t rest hs hk ih =>
    obtain ⟨gap, hts, hgap⟩ := skipSeparators_eq ts
    rw [hs] at hts
    subst hts
    have hown : (statement t rest).errors = [] := he _ List.mem_cons_self
    obtain ⟨x, event, hx, hv, hline, hend⟩ := statement_derives t (h.of_append.tail hk) hown
    have hlater := ih hend.terminated fun item hm => he item (List.mem_cons_of_mem _ hm)
    obtain ⟨t', rest', hcons, ht'⟩ := hend.exists_cons
    rw [hcons] at hx hlater
    have hts : t :: rest = (t :: x) ++ t' :: rest' := congrArg (t :: ·) hx
    rw [hts, List.filterMap_cons, hv, hcons]
    refine Lines.gaps (fun t ht => endsStatement_of_separator (hgap t ht)) (.line hline ht' ?_)
    exact hlater.of_gap ht' fun _ _ => line_start

theorem statements_of_skip {ts rest : Toks} {t : Tok} (h : skipSeparators ts = t :: rest) :
    statements ts =
      if t.kind = .eof then []
      else ((statement t rest).value, (statement t rest).errors) ::
        statements (statement t rest).rest := by
  fun_cases statements ts <;> simp_all

theorem statements_gap {t : Tok} (ht : t.kind.isSeparator = true) {ts : Toks}
    (h : Terminated .eof ts) : statements (t :: ts) = statements ts := by
  obtain ⟨t', rest, hskip⟩ := (h.dropWhile (p := Kind.isSeparator) rfl).exists_cons
  have hskip' : skipSeparators (t :: ts) = t' :: rest := by
    rw [← hskip]
    exact List.dropWhile_cons_of_pos ht
  rw [statements_of_skip hskip, statements_of_skip hskip']

theorem statements_eof {t : Tok} (ht : t.kind = .eof) (ts : Toks) : statements (t :: ts) = [] := by
  have hsep : t.kind.isSeparator = false := by simp [ht, Kind.isSeparator]
  rw [statements_of_skip (skipSeparators_cons hsep ts), if_pos ht]

theorem statements_cons {t : Tok} (ht : t.kind.endsStatement = false) (ts : Toks) :
    statements (t :: ts) = ((statement t ts).value, (statement t ts).errors) ::
      statements (statement t ts).rest := by
  simp only [Kind.endsStatement, Bool.or_eq_false_iff, beq_eq_false_iff_ne] at ht
  rw [statements_of_skip (skipSeparators_cons ht.1 ts), if_neg ht.2]

/-- The statements behind a separator, or none behind the end of the text. -/
theorem statements_end {t : Tok} {ts : Toks} {es : List Event} (ht : t.kind.endsStatement = true)
    (h : Terminated .eof (t :: ts)) (hl : AreLines ts es)
    (ih : Terminated .eof ts → statements ts = es.map fun e => (some e, [])) :
    statements (t :: ts) = es.map fun e => (some e, []) := by
  by_cases hk : t.kind = .eof
  · have hts := h.eq_nil hk
    subst hts
    rw [hl.eq_nil]
    exact statements_eof hk []
  · have hsep : t.kind.isSeparator = true := by simpa [Kind.endsStatement, hk] using ht
    rw [statements_gap hsep (h.tail hk)]
    exact ih (h.tail hk)

theorem statements_read {ts : Toks} {es : List Event} (h : AreLines ts es)
    (ht : Terminated .eof ts) : statements ts = es.map fun e => (some e, []) := by
  induction h with
  | nil => exact absurd rfl ht.ne_nil
  | gap hend hl ih => exact statements_end hend ht hl ih
  | line hx hend hl ih =>
    obtain ⟨t, x, rfl, hstart, hread⟩ := statement_read hx
    rw [List.cons_append, statements_cons hstart, hread _ _ hend, List.map_cons,
      ← statements_end hend ht.of_append hl ih]
    rfl

/-! ## Subgraphs -/

theorem IsBody.gaps {gap ts : Toks} {ss : List Statement}
    (hg : ∀ t ∈ gap, t.kind.endsStatement = true) (h : IsBody ts ss) : IsBody (gap ++ ts) ss := by
  induction gap with
  | nil => exact h
  | cons t gap ih =>
    exact .gap (hg t List.mem_cons_self) (ih fun t hm => hg t (List.mem_cons_of_mem _ hm))

/-- No statement adds a branch to a subgraph, so a subgraph ends as it was opened. -/
theorem body_of_nested {around after : Option OpenSubgraph} {es : List Event}
    {ss : List Statement} (h : Nested wrapSubgraph around es after ss) {ts : Toks}
    (hl : AreLines ts es) : after = around ∧ IsBody ts ss := by
  induction h generalizing ts with
  | nil =>
    have hbody := IsBody.nil.gaps hl.of_nil
    rw [List.append_nil] at hbody
    exact ⟨rfl, hbody⟩
  | placed s _ ih =>
    obtain ⟨gap, x, t, rest, rfl, hgap, hx, ht, hrest⟩ := hl.exists_of_cons
    obtain ⟨rfl, hbody⟩ := ih hrest
    cases hx with
    | placed hs => exact ⟨rfl, (IsBody.simple hs ht hbody).gaps hgap⟩
  | branched outside hc _ ih =>
    obtain ⟨_, x, _, _, -, -, hx, -⟩ := hl.exists_of_cons
    cases hx
  | block u _ _ ihi ih =>
    obtain ⟨gap, x, t, rest, rfl, hgap, hx, ht, hrest⟩ := hl.exists_of_cons
    obtain ⟨inside, y, t', later, rfl, hinside, hy, ht', hlater⟩ := hrest.exists_of_append
    obtain ⟨hended, hinner⟩ := ihi hinside
    obtain ⟨rfl, hbody⟩ := ih hlater
    cases hended
    cases hx with
    | opened hk hi hx =>
      cases hy with
      | closed hk' hi' =>
        exact ⟨rfl, (IsBody.subgraph hk hi hx ht hinner hk' hi' ht' hbody).gaps hgap⟩

theorem nested_of_body {ts : Toks} {ss : List Statement} (h : IsBody ts ss) :
    ∃ es, AreLines ts es ∧ ∀ around, Nested wrapSubgraph around es around ss := by
  induction h with
  | nil => exact ⟨[], .nil, fun around => .nil around⟩
  | gap ht _ ih =>
    obtain ⟨es, hl, hn⟩ := ih
    exact ⟨es, .gap ht hl, hn⟩
  | @simple x ts t s ss hx ht _ ih =>
    obtain ⟨es, hl, hn⟩ := ih
    exact ⟨.placed s :: es, .line (.placed hx) ht hl, fun around => .placed s (hn around)⟩
  | subgraph hf hfi hx ht _ hl hli ht' _ ihb ih =>
    obtain ⟨inside, hinside, hni⟩ := ihb
    obtain ⟨es, hes, hn⟩ := ih
    refine ⟨_, .line (.opened hf hfi hx) ht (hinside.append (.line (.closed hl hli) ht' hes)), ?_⟩
    intro around
    exact .block _ (hni _) (hn around)

/-- The statements bring no error and close every subgraph exactly when they are those of a
chart. -/
theorem run_statements_iff {ts : Toks} (h : Terminated .eof ts) {ss : List Statement} :
    Nesting.run wrapSubgraph {} (statements ts) = (⟨ss, []⟩, []) ↔ IsBody ts ss := by
  rw [Nesting.run_eq_iff_nested]
  constructor
  · rintro ⟨he, hn⟩
    exact (body_of_nested hn (statements_lines h he)).2
  · intro hb
    obtain ⟨es, hl, hn⟩ := nested_of_body hb
    rw [statements_read hl h]
    refine ⟨by simp, ?_⟩
    simpa [List.filterMap_map, Function.comp_def] using hn none

/-! ## Charts -/

theorem IsBody.of_gap {t : Tok} {ts : Toks} {ss : List Statement}
    (ht : t.kind.endsStatement = true) (h : IsBody (t :: ts) ss) : IsBody ts ss := by
  generalize hts : t :: ts = all at h
  cases h with
  | nil => cases hts
  | gap _ h =>
    cases hts
    exact h
  | simple hx _ _ =>
    obtain ⟨t', y, rfl, hstart, -⟩ := simple_read hx
    cases hts
    rw [hstart] at ht
    cases ht
  | subgraph hf =>
    cases hts
    simp [hf, Kind.endsStatement, Kind.isSeparator] at ht

theorem parse_of_header {ts rest : Toks} {header : Tok} (hs : skipSeparators ts = header :: rest)
    (hh : header.kind = .header) :
    parse ts =
      let d := headerDirection rest
      let e := endStatement d.2
      let n := Nesting.run wrapSubgraph {} (statements e.2)
      { tree := some ⟨header.line, d.1, Nesting.unwind wrapSubgraph n.1.current n.1.blocks⟩
        errors := e.1 ++ n.2 ++ n.1.blocks.map fun (block, _) =>
          ParseError.blockMissingEnd (endPlace ts) block.place.line } := by
  simp [parse, hs, hh]

theorem chart_of_parse {ts : Toks} (h : Terminated .eof ts) (he : (parse ts).errors = []) :
    ∃ chart, IsChart ts chart := by
  obtain ⟨gap, hts, hgap⟩ := skipSeparators_eq ts
  obtain ⟨header, rest, hskip⟩ := (h.dropWhile (p := Kind.isSeparator) rfl).exists_cons
  change skipSeparators ts = header :: rest at hskip
  rw [hskip] at hts
  by_cases hh : header.kind = .header
  · rw [parse_of_header hskip hh] at he
    simp only [List.append_eq_nil_iff, List.map_eq_nil_iff] at he
    obtain ⟨⟨hend, hrun⟩, hblocks⟩ := he
    rw [hts] at h
    have hrest : Terminated .eof rest := h.of_append.tail (by simp [hh])
    obtain ⟨x, hx, hdir⟩ := takeOptional_derives (· == Kind.direction) rest
    have hafter := takeOptional_terminated (p := (· == Kind.direction)) hrest rfl
    rw [← headerDirection_eq] at hx hdir hafter
    obtain ⟨hsame, hstop⟩ := endStatement_derives hafter hend
    rw [hsame] at hrun hblocks
    have hbody := (run_statements_iff hafter).mp (Nesting.run_eq_of_closed hrun hblocks)
    obtain ⟨t, later, hcons, ht⟩ := hstop.exists_cons
    rw [hcons] at hx hbody
    rw [hts, hx]
    exact ⟨_, .chart hgap hh hdir ht (hbody.of_gap ht)⟩
  · simp [parse, hskip, hh, unexpected] at he

theorem parse_of_chart {ts : Toks} (h : Terminated .eof ts) {chart : Chart}
    (hc : IsChart ts chart) : parse ts = ⟨some chart, []⟩ := by
  cases hc with
  | @chart gap x ts header t direction ss hg hh hd ht hb =>
    have hsep : header.kind.isSeparator = false := by simp [hh, Kind.isSeparator]
    have hskip := skipSeparators_append hg hsep (x ++ t :: ts)
    have hdir : headerDirection (x ++ t :: ts) = (direction, t :: ts) := by
      rw [headerDirection_eq]
      refine takeOptional_append hd (notAhead_cons ?_)
      cases hk : t.kind <;> simp_all [Kind.endsStatement, Kind.isSeparator]
    have hend : endStatement (t :: ts) = ([], t :: ts) := by
      simp [endStatement, kindAhead, ht]
    have hrun := (run_statements_iff (h.of_append.tail (by simp [hh])).of_append).mpr (.gap ht hb)
    rw [parse_of_header hskip hh]
    simp [hdir, hend, hrun, Nesting.unwind]

/-- A flowchart whose tokens end in their only end of text is parsed without errors exactly when
the grammar derives it, and then into the chart that it derives. -/
theorem only_derivable_flowcharts_parse_without_errors {ts : Toks} (h : Terminated .eof ts) :
    ((parse ts).errors = [] ↔ ∃ chart, IsChart ts chart) ∧
      ∀ chart, IsChart ts chart → (parse ts).tree = some chart := by
  refine ⟨⟨chart_of_parse h, ?_⟩, ?_⟩
  · rintro ⟨chart, hc⟩
    rw [parse_of_chart h hc]
  · intro chart hc
    rw [parse_of_chart h hc]

/-- A chart with one subgraph, and an edge inside it that leads to two nodes. -/
def subgraphTokens : Toks :=
  [⟨.header, "flowchart", 1, 1⟩, ⟨.direction, "TD", 1, 11⟩, ⟨.newline, "\n", 1, 13⟩,
    ⟨.keyword, "subgraph", 2, 1⟩, ⟨.text, "s", 2, 10⟩, ⟨.newline, "\n", 2, 11⟩,
    ⟨.ident, "A", 3, 1⟩, ⟨.shapeOpen, "[", 3, 2⟩, ⟨.label, "x", 3, 3⟩, ⟨.shapeClose, "]", 3, 4⟩,
    ⟨.link, "-->", 3, 6⟩, ⟨.ident, "B", 3, 10⟩, ⟨.amp, "&", 3, 12⟩, ⟨.ident, "C", 3, 14⟩,
    ⟨.newline, "\n", 3, 15⟩, ⟨.keyword, "end", 4, 1⟩, ⟨.eof, "", 4, 4⟩]

/-- What these tokens stand for. -/
def subgraphChart : Chart :=
  ⟨1, some "TD", [.subgraph (some "s") ⟨2, 1⟩
    [.edges { groups := [[⟨"A", ⟨3, 1⟩, some "[", some "x"⟩],
                         [⟨"B", ⟨3, 10⟩, none, none⟩, ⟨"C", ⟨3, 14⟩, none, none⟩]]
              links := ["-->"] }]]⟩

theorem subgraphTokens_derivable : IsChart subgraphTokens subgraphChart := by
  refine @IsChart.chart [] [_] _ _ _ _ _ (by simp) rfl (.present _ rfl) rfl ?_
  refine @IsBody.subgraph _ _ _ _ [_] [_, _, _, _, _, _, _, _, _] _ _ _ _ rfl rfl (.present _ rfl)
    rfl ?_ rfl rfl rfl .nil
  refine .simple (x := [_, _, _, _, _, _, _, _]) (.edges ?_) rfl .nil
  refine @IsChain.chain _ [_, _, _] _ _ [("-->", _)] rfl (.one ?_) ?_
  · exact .node (x := [_, _, _]) (y := []) (.inl rfl)
      (.present (x := [_]) rfl (.present _ rfl) rfl rfl) .absent
  · refine .link (x := []) (y := [_, _, _]) (z := []) rfl .absent ?_ .nil
    refine .more (x := [_]) ?_ rfl (.one ?_)
    · exact .node (x := []) (y := []) (.inl rfl) .absent .absent
    · exact .node (x := []) (y := []) (.inl rfl) .absent .absent

theorem subgraphTokens_parse_without_errors :
    Terminated .eof subgraphTokens ∧ (parse subgraphTokens).errors = [] ∧
      (parse subgraphTokens).tree = some subgraphChart := by
  have hend : Terminated .eof subgraphTokens :=
    ⟨subgraphTokens.dropLast, ⟨.eof, "", 4, 4⟩, rfl, rfl, by decide⟩
  obtain ⟨herrors, htree⟩ := only_derivable_flowcharts_parse_without_errors hend
  exact ⟨hend, herrors.mpr ⟨_, subgraphTokens_derivable⟩, htree _ subgraphTokens_derivable⟩

end DiagramLint.Flowchart
