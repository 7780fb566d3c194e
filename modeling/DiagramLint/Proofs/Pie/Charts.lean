-- The grammar of pie charts, and their parser: it reports nothing exactly on
-- the charts of the grammar, and then the chart says what the tokens say. With
-- errors or without, entries are read in the order of the tokens.
import Mathlib.Data.List.Forall2
import DiagramLint.Proofs.Parsing.Derivations
import DiagramLint.Proofs.Pie.Numerals
import DiagramLint.Proofs.Pie.Statements

namespace DiagramLint.Pie

/-! ## Labels -/

/-- The label that the image of a string stands for: what is between its quotation marks, if it has
two, and else all of it. -/
def IsLabelOf (image label : String) : Prop :=
  image.toList = '"' :: (label.toList ++ ['"']) ∨
    (¬ ∃ inner : Text, image.toList = '"' :: (inner ++ ['"'])) ∧ label = image

theorem isLabelOf_unquote (image : String) : IsLabelOf image (unquote image) := by
  unfold unquote IsLabelOf
  split
  · rename_i rest himage
    split
    · rename_i hlast
      refine .inl ?_
      rw [himage, String.toList_ofList, List.dropLast_append_getLast? _ hlast]
    · rename_i hlast
      refine .inr ⟨?_, rfl⟩
      rintro ⟨inner, hinner⟩
      rw [himage, List.cons.injEq] at hinner
      exact hlast (by rw [hinner.2, List.getLast?_concat])
  · rename_i hquote
    refine .inr ⟨?_, rfl⟩
    rintro ⟨inner, hinner⟩
    exact hquote _ hinner

theorem IsLabelOf.eq_unquote {image label : String} (h : IsLabelOf image label) :
    label = unquote image := by
  rcases h with h | ⟨hnone, rfl⟩
  · rcases isLabelOf_unquote image with hsame | ⟨hnone, -⟩
    · have hlist : label.toList = (unquote image).toList := by simpa [h] using hsame
      exact String.toList_inj.mp hlist
    · exact absurd ⟨_, h⟩ hnone
  · rcases isLabelOf_unquote label with hsame | ⟨-, hsame⟩
    · exact absurd ⟨_, hsame⟩ hnone
    · exact hsame.symm

/-! ## The grammar -/

/-- A slice: its label, a colon and a number that can be read. -/
inductive IsSlice : Toks → Entry → Prop where
  | slice {label colon number : Tok} {name : String} {value : Binary64} (hl : label.kind = .str)
    (hname : IsLabelOf label.image name) (hc : colon.kind = .colon) (hn : number.kind = .number)
    (hv : numberValue? number.image = some value) :
    IsSlice [label, colon, number]
      { label := name, place := label.place, value, valueColumn := number.column,
        valueLength := number.width }

/-- A statement, what it adds to the chart, and the tokens it can stand before: a title and a
slice end their line, what comes behind `showData` may go on on the same line. -/
inductive IsStatement : Toks → Option Part → Toks → Prop where
  | gap {t : Tok} {rest : Toks} (ht : t.kind = .newline) : IsStatement [t] none rest
  | showData {t : Tok} {rest : Toks} (ht : t.kind = .showData) :
    IsStatement [t] (some .showData) rest
  | title {t : Tok} {x rest : Toks} {text : Option String} (ht : t.kind = .title)
    (hx : Optionally (· == .text) x text) (hend : (kindAhead rest).endsLine = true) :
    IsStatement (t :: x) (some (.title text)) rest
  | slice {x rest : Toks} {e : Entry} (hx : IsSlice x e)
    (hend : (kindAhead rest).endsLine = true) : IsStatement x (some (.entry e)) rest

/-- Statements up to the end of the text, and what they add to the chart. -/
inductive IsBody : Toks → List Part → Prop where
  | nil {t : Tok} (ht : t.kind = .eof) : IsBody [t] []
  | cons {x rest : Toks} {part : Option Part} {parts : List Part}
    (hx : IsStatement x part rest) (h : IsBody rest parts) :
    IsBody (x ++ rest) (part.toList ++ parts)

/-- A pie chart: a header, with nothing but line ends before it, and statements. -/
inductive IsChart : Toks → List Part → Prop where
  | chart {gap ts : Toks} {header : Tok} {parts : List Part}
    (hg : ∀ t ∈ gap, t.kind = .newline) (hh : header.kind = .header) (hb : IsBody ts parts) :
    IsChart (gap ++ header :: ts) parts

/-! ## What a reader takes -/

theorem quotedEntry_derives {t : Tok} {ts : Toks} (hk : t.kind = .str)
    (h : Terminated .eof ts) :
    (quotedEntry t ts).Derives (fun x => IsSlice (t :: x)) (Terminated .eof) ts := by
  unfold quotedEntry
  split
  · rename_i c rest
    split
    · rename_i hc
      have hrest := h.tail (by simp [hc])
      unfold entryValue
      split
      · rename_i number later
        split
        · rename_i hn
          split
          · rename_i value hv
            exact Reading.derives_ok (x := [c, number]) rfl
              (.slice hk (isLabelOf_unquote t.image) hc hn hv)
              (hrest.tail (by simp [hn]))
          · exact refuse_derives _ hrest _
        · exact refuse_derives _ hrest _
      · exact refuse_derives _ hrest _
    · split
      · exact Reading.derives_of_errors (by simp [Reading.after])
      · exact refuse_derives _ h _
  · exact refuse_derives _ h _

/-- A label that is not quoted is always an error. -/
theorem bareEntry_errors {t : Tok} {ts : Toks} (h : Terminated .eof ts) :
    (bareEntry t ts).errors ≠ [] := by
  unfold bareEntry
  split
  · simp [Reading.fail]
  · have hwords := h.dropWhile (p := (· == Kind.word)) rfl
    split
    · split
      · simp [Reading.after]
      · simp [refuse, Reading.fail, unexpected]
    · rename_i hnil
      exact absurd hnil hwords.ne_nil

/-- What a statement leaves: the tokens go on with a line end or the end of the text. -/
def StatementEnd (rest : Toks) : Prop :=
  Terminated .eof rest ∧ (kindAhead rest).endsLine = true

theorem endLine_derives {r : Read Part} {D : Toks → Part → Prop} {ts : Toks}
    (h : r.Derives D (Terminated .eof) ts) : (endLine r).Derives D StatementEnd ts := by
  unfold endLine
  split
  · rename_i hend
    intro he
    obtain ⟨x, part, hx, hvalue, hpart, hrest⟩ := h he
    exact ⟨x, part, hx, hvalue, hpart, hrest, hend⟩
  · rename_i hend
    refine Reading.derives_of_errors ?_
    cases hrest : r.rest with
    | nil =>
      rw [hrest] at hend
      exact absurd rfl hend
    | cons t rest => simp [unexpected]

/-! ## Statements -/

theorem titleText_eq (ts : Toks) : titleText ts = takeOptional (· == .text) ts := by
  cases ts with
  | nil => rfl
  | cons t rest => simp only [titleText, takeOptional, beq_iff_eq]

theorem notAhead_text {rest : Toks} (h : (kindAhead rest).endsLine = true) :
    NotAhead (· == Kind.text) rest := by
  cases rest with
  | nil => simp [NotAhead]
  | cons t rest =>
    refine notAhead_cons (beq_eq_false_iff_ne.mpr ?_)
    intro hk
    rw [kindAhead, hk] at h
    cases h

/-- Unless it reports an error, a statement takes the tokens of one of the grammar. -/
theorem statement_sound {t : Tok} {ts : Toks} (h : Terminated .eof ts)
    (he : (statement t ts).errors = []) :
    ∃ x, t :: ts = x ++ (statement t ts).rest ∧
      IsStatement x (statement t ts).value (statement t ts).rest ∧
      Terminated .eof (statement t ts).rest := by
  unfold statement at he ⊢
  split at he
  · exact ⟨[t], rfl, .gap ‹_›, h⟩
  · exact ⟨[t], rfl, .showData ‹_›, h⟩
  · rename_i hkind
    obtain ⟨x, hx, hoptional⟩ := takeOptional_derives (· == Kind.text) ts
    have hleft := takeOptional_terminated (p := (· == Kind.text)) h rfl
    rw [← titleText_eq] at hx hoptional hleft
    obtain ⟨y, part, hy, hvalue, ⟨rfl, hpart⟩, hend⟩ := endLine_derives
      (D := fun y part => y = x ∧ part = .title (titleText ts).1)
      (Reading.derives_ok hx ⟨rfl, rfl⟩ hleft) he
    rw [hvalue, hpart]
    exact ⟨t :: y, by rw [List.cons_append, ← hy], .title hkind hoptional hend.2, hend.1⟩
  · rename_i hkind
    have hentry : ((quotedEntry t ts).map Part.entry).Derives
        (fun x part => ∃ e, part = .entry e ∧ IsSlice (t :: x) e) (Terminated .eof) ts :=
      (quotedEntry_derives hkind h).map Part.entry fun x e he => ⟨e, rfl, he⟩
    obtain ⟨x, part, hx, hvalue, ⟨e, rfl, he⟩, hend⟩ := endLine_derives hentry he
    rw [hvalue]
    exact ⟨t :: x, by rw [List.cons_append, ← hx], .slice he hend.2, hend.1⟩
  · exact absurd (errors_of_endLine he) (bareEntry_errors h)
  · exact absurd (errors_of_endLine he) (by simp [Reading.fail, unexpected])

/-- A statement of the grammar is read as it stands. -/
theorem statement_complete {t : Tok} {x rest : Toks} {part : Option Part}
    (h : IsStatement (t :: x) part rest) : statement t (x ++ rest) = ⟨part, [], rest⟩ := by
  cases h with
  | gap ht => simp [statement, ht, Reading.fail]
  | showData ht => simp [statement, ht, Reading.ok]
  | title ht hx hend =>
    have htitle := takeOptional_append hx (notAhead_text hend)
    rw [← titleText_eq] at htitle
    simp only [statement, ht, htitle, Reading.ok]
    exact endLine_of_ends hend
  | slice hx hend =>
    cases hx with
    | slice hl hname hc hn hv =>
      simp only [List.cons_append, List.nil_append, statement, hl, hname.eq_unquote, quotedEntry, hc,
        entryValue, hn, hv, Reading.ok, Reading.map, if_true]
      exact endLine_of_ends hend

/-! ## Bodies -/

/-- The statements go on up to the end of the text, so none of them starts there. -/
theorem IsStatement.exists_cons {x rest : Toks} {part : Option Part}
    (h : IsStatement x part rest) : ∃ t y, x = t :: y ∧ t.kind ≠ .eof := by
  cases h with
  | gap ht | showData ht => exact ⟨_, _, rfl, by simp [ht]⟩
  | title ht => exact ⟨_, _, rfl, by simp [ht]⟩
  | slice hx =>
    cases hx with
    | slice hl => exact ⟨_, _, rfl, by simp [hl]⟩

theorem statements_sound {ts : Toks} (h : Terminated .eof ts)
    (he : (statements ts).flatMap (·.2) = []) :
    IsBody ts ((statements ts).filterMap (·.1)) := by
  fun_induction statements ts with
  | case1 => exact absurd rfl h.ne_nil
  | case2 t rest hk =>
    -- the end of the text is the last token
    rw [h.eq_nil hk]
    exact .nil hk
  | case3 t rest hk ih =>
    rw [List.flatMap_cons, List.append_eq_nil_iff] at he
    obtain ⟨x, hx, hstatement, hleft⟩ := statement_sound (h.tail hk) he.1
    have hbody := IsBody.cons hstatement (ih hleft he.2)
    rw [← hx] at hbody
    cases hv : (statement t rest).value <;> simpa [hv] using hbody

theorem statements_complete {ts : Toks} {parts : List Part} (h : IsBody ts parts) :
    (statements ts).flatMap (·.2) = [] ∧ (statements ts).filterMap (·.1) = parts := by
  induction h with
  | nil ht => simp [statements, ht]
  | @cons x rest part parts hx _ ih =>
    obtain ⟨t, y, rfl, hk⟩ := hx.exists_cons
    rw [List.cons_append, statements, if_neg hk, statement_complete hx]
    cases part <;> simp [ih]

/-! ## What a chart says -/

/-- The chart says what the tokens say. It has the last of the title texts, and as many entries as
there are strings: each with its label, in its place, and with the number that belongs to it. -/
structure Chart.Says (chart : Chart) (ts : Toks) : Prop where
  showData_eq : chart.showData = ts.any (·.kind == .showData)
  title_eq : chart.title = ((ts.filter (·.kind == .text)).map (·.image)).getLast?
  labels : List.Forall₂ (fun e t => IsLabelOf t.image e.label ∧ e.place = t.place) chart.entries
    (ts.filter (·.kind == .str))
  numbers_eq : chart.entries.map (fun e => (some e.value, e.valueColumn, e.valueLength)) =
    (ts.filter (·.kind == .number)).map fun t => (numberValue? t.image, t.column, t.width)

namespace Chart.Says

variable {chart : Chart} {ts : Toks}

/-- Tokens between the statements say nothing. -/
theorem silent (h : chart.Says ts) {x : Toks}
    (hx : ∀ t ∈ x, t.kind = .newline ∨ t.kind = .header ∨ t.kind = .eof) :
    chart.Says (ts ++ x) := by
  have hnone : ∀ k, k ≠ .newline → k ≠ .header → k ≠ .eof → x.filter (·.kind == k) = [] := by
    intro k hnewline hheader heof
    refine List.filter_eq_nil_iff.mpr ?_
    intro t ht hk
    obtain rfl := beq_iff_eq.mp hk
    rcases hx t ht with h | h | h <;> contradiction
  have hshow : x.any (·.kind == .showData) = false := by
    have hfilter := hnone .showData (by decide) (by decide) (by decide)
    rwa [List.filter_eq_nil_iff, ← List.any_eq_false] at hfilter
  constructor
  · rw [List.any_append, hshow, Bool.or_false]
    exact h.showData_eq
  all_goals
    rw [List.filter_append, hnone _ (by decide) (by decide) (by decide), List.append_nil]
  · exact h.title_eq
  · exact h.labels
  · exact h.numbers_eq

/-- What a statement says is what it adds. -/
theorem add (h : chart.Says ts) {x rest : Toks} {part : Part}
    (hx : IsStatement x (some part) rest) : (chart.add part).Says (ts ++ x) := by
  obtain ⟨hshow, htitle, hlabels, hnumbers⟩ := h
  cases hx with
  | showData ht => constructor <;> simp [Chart.add, ht, htitle, hlabels, hnumbers]
  | title ht hx =>
    cases hx with
    | absent => constructor <;> simp [Chart.add, ht, hshow, htitle, hlabels, hnumbers]
    | present t' ht' =>
      rw [beq_iff_eq] at ht'
      constructor <;> simp [Chart.add, ht, ht', hshow, hlabels, hnumbers]
  | slice hx =>
    cases hx with
    | slice hl hname hc hn hv =>
      refine ⟨?_, ?_, ?_, ?_⟩
      · simp [Chart.add, hl, hc, hn, hshow]
      · simp [Chart.add, hl, hc, hn, htitle]
      · simpa [Chart.add, hl, hc, hn] using List.rel_append hlabels (.cons ⟨hname, rfl⟩ .nil)
      · simp [Chart.add, hl, hc, hn, hv, hnumbers]

/-- A chart that goes on with statements says what they say. -/
theorem foldl_add {body : Toks} {parts : List Part} (hb : IsBody body parts) {chart : Chart}
    {ts : Toks} (h : chart.Says ts) : (parts.foldl Chart.add chart).Says (ts ++ body) := by
  induction hb generalizing chart ts with
  | nil ht => exact h.silent (by simp [ht])
  | @cons x rest part parts hx _ ih =>
    rw [← List.append_assoc]
    cases part with
    | none =>
      refine ih (h.silent ?_)
      cases hx with
      | gap ht => simp [ht]
    | some part => exact ih (h.add hx)

end Chart.Says

theorem IsChart.says {ts : Toks} {parts : List Part} (h : IsChart ts parts) :
    (parts.foldl Chart.add {}).Says ts := by
  cases h with
  | @chart gap ts header parts hg hh hb =>
    have hnone : ({} : Chart).Says [] := ⟨rfl, rfl, .nil, rfl⟩
    have hhead := (hnone.silent fun t ht => .inl (hg t ht)).silent (x := [header]) (by simp [hh])
    have hsays := hhead.foldl_add hb
    rw [List.append_assoc] at hsays
    exact hsays

/-! ## Charts -/

theorem chart_of_parse {ts : Toks} (h : Terminated .eof ts) (he : (parse ts).errors = []) :
    ∃ parts, IsChart ts parts := by
  have htree : ∃ chart, (parse ts).tree = some chart := by
    obtain ⟨first, rest, hskip⟩ := (h.dropWhile (p := (· == Kind.newline)) rfl).exists_cons
    unfold parse at he ⊢
    rw [hskip] at he ⊢
    dsimp only at he ⊢
    split
    · exact ⟨_, rfl⟩
    · rename_i hfirst
      rw [if_neg hfirst] at he
      cases he
  obtain ⟨gap, header, rest, rfl, hgap, hheader⟩ := exists_tree_iff.mp htree
  rw [parse_of_header hgap hheader] at he
  have hrest : Terminated .eof rest := h.of_append.tail (by simp [hheader])
  exact ⟨_, .chart hgap hheader (statements_sound hrest he)⟩

theorem parse_of_chart {ts : Toks} {parts : List Part} (h : IsChart ts parts) :
    parse ts = ⟨some (parts.foldl Chart.add {}), []⟩ := by
  cases h with
  | chart hg hh hb =>
    obtain ⟨herrors, hparts⟩ := statements_complete hb
    rw [parse_of_header hg hh, herrors, hparts]

/-- Tokens that end in their only end of text are parsed without errors exactly when they are those
of a pie chart, and the chart then says what they say. Any other tokens with a header in front make
a chart as well: its entries are read in the order of the tokens, and no tokens are read twice. -/
theorem only_pie_charts_parse_without_errors (ts : Toks) :
    (Terminated .eof ts →
      ((parse ts).errors = [] ↔ ∃ parts, IsChart ts parts) ∧
      ((parse ts).errors = [] → ∃ chart, (parse ts).tree = some chart ∧ chart.Says ts)) ∧
    (∀ t l, scan t = .finished l → ∀ tok ∈ l.tokens, tok.kind = .number →
      ((numberValue? tok.image).isSome = true ↔ tok.image.toList.count '.' ≤ 1)) ∧
    ((∃ chart, (parse ts).tree = some chart) ↔
      ∃ gap header rest, ts = gap ++ header :: rest ∧ (∀ t ∈ gap, t.kind = .newline) ∧
        header.kind = .header) ∧
    ∀ chart, (parse ts).tree = some chart →
      ReadInOrder ts chart.entries ∧
      (chart.entries.map (·.place)).Sublist (ts.map (·.place)) := by
  refine ⟨?_, ?_, exists_tree_iff, ?_⟩
  · intro h
    refine ⟨⟨chart_of_parse h, ?_⟩, ?_⟩
    · rintro ⟨parts, hchart⟩
      rw [parse_of_chart hchart]
    · intro he
      obtain ⟨parts, hchart⟩ := chart_of_parse h he
      exact ⟨_, congrArg Parsed.tree (parse_of_chart hchart), hchart.says⟩
  · intro t l hl tok hm hk
    exact ofText?_isSome_iff (numeral_of_scan hl tok hm hk)
  · intro chart htree
    have hread := parse_readInOrder htree
    exact ⟨hread, hread.places_sublist⟩

/-- A chart with its values shown, a title on the same line, and two slices. -/
def petTokens : Toks :=
  [⟨.newline, "\n", 1, 1⟩, ⟨.header, "pie", 2, 1⟩, ⟨.showData, "showData", 2, 5⟩,
    ⟨.title, "title", 2, 14⟩, ⟨.text, "Pets", 2, 20⟩, ⟨.newline, "\n", 2, 24⟩,
    ⟨.str, "\"Dogs\"", 3, 1⟩, ⟨.colon, ":", 3, 8⟩, ⟨.number, "3.5", 3, 10⟩,
    ⟨.newline, "\n", 3, 13⟩, ⟨.str, "\"Cats\"", 4, 1⟩, ⟨.colon, ":", 4, 8⟩,
    ⟨.number, "-2", 4, 10⟩, ⟨.eof, "", 4, 12⟩]

/-- What these tokens stand for. -/
def petParts : List Part :=
  [.showData, .title (some "Pets"),
    .entry { label := "Dogs", place := ⟨3, 1⟩, value := .ofDecimal false 35 1, valueColumn := 10,
             valueLength := 3 },
    .entry { label := "Cats", place := ⟨4, 1⟩, value := .ofDecimal true 2 0, valueColumn := 10,
             valueLength := 2 }]

theorem petTokens_derivable : IsChart petTokens petParts := by
  refine @IsChart.chart [_] _ _ _ (by decide) rfl ?_
  refine .cons (x := [_]) (.showData rfl) ?_
  refine .cons (x := [_, _]) (.title rfl (.present _ rfl) rfl) ?_
  refine .cons (x := [_]) (.gap rfl) ?_
  refine .cons (x := [_, _, _]) (.slice (.slice rfl (.inl rfl) rfl rfl rfl) rfl) ?_
  refine .cons (x := [_]) (.gap rfl) ?_
  exact .cons (x := [_, _, _]) (.slice (.slice rfl (.inl rfl) rfl rfl rfl) rfl) (.nil rfl)

theorem petTokens_parse_without_errors :
    Terminated .eof petTokens ∧ (parse petTokens).errors = [] ∧
      ∃ chart, (parse petTokens).tree = some chart ∧ chart.Says petTokens ∧
        ReadInOrder petTokens chart.entries := by
  have hend : Terminated .eof petTokens :=
    ⟨petTokens.dropLast, ⟨.eof, "", 4, 12⟩, rfl, rfl, by decide⟩
  obtain ⟨hclean, -, -, hread⟩ := only_pie_charts_parse_without_errors petTokens
  obtain ⟨hiff, hsays⟩ := hclean hend
  have herrors := hiff.mpr ⟨_, petTokens_derivable⟩
  obtain ⟨chart, htree, hchart⟩ := hsays herrors
  exact ⟨hend, herrors, chart, htree, hchart, (hread chart htree).1⟩

end DiagramLint.Pie
