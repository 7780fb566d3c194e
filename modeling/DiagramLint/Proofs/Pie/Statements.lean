-- Which tokens the statements of a pie chart take. A statement leaves a rest
-- of the tokens behind it, whatever errors it reports; the next one starts
-- there. So entries are read one behind the other, each from tokens of its own.
import DiagramLint.Pie.Parser
import DiagramLint.Proofs.Parsing.Within

namespace DiagramLint.Pie

/-! ## What a statement leaves -/

theorem entryValue_isSuffix (label : String) (place : Position) (ts : Toks) :
    (entryValue label place ts).rest <:+ ts := by
  unfold entryValue
  split
  · split
    · split
      · exact List.suffix_cons _ _
      · exact recover_isSuffix _
    · exact recover_isSuffix _
  · exact recover_isSuffix _

theorem quotedEntry_isSuffix (t : Tok) (ts : Toks) : (quotedEntry t ts).rest <:+ ts := by
  unfold quotedEntry
  split
  · split
    · exact (entryValue_isSuffix _ _ _).trans (List.suffix_cons _ _)
    · split
      · exact entryValue_isSuffix _ _ _
      · exact recover_isSuffix _
  · exact recover_isSuffix _

theorem bareEntry_isSuffix (t : Tok) (ts : Toks) : (bareEntry t ts).rest <:+ ts := by
  unfold bareEntry
  split
  · exact recover_isSuffix _
  · have hwords : ts.dropWhile (·.kind == .word) <:+ ts := List.dropWhile_suffix _
    split
    · rename_i c rest hc
      rw [hc] at hwords
      split
      · exact ((entryValue_isSuffix _ _ rest).trans (List.suffix_cons c rest)).trans hwords
      · exact (recover_isSuffix _).trans hwords
    · exact List.nil_suffix

theorem titleText_isSuffix (ts : Toks) : (titleText ts).2 <:+ ts := by
  unfold titleText
  split
  · split
    · exact List.suffix_cons _ _
    · exact List.suffix_rfl
  · exact List.suffix_rfl

theorem endsLine_endLine (r : Read Part) : (kindAhead (endLine r).rest).endsLine = true :=
  endsStatement_endLine r

/-- A statement is a line end or `showData`, or it goes up to the end of its line. -/
theorem statement_rest (t : Tok) (ts : Toks) :
    (t.kind = .newline ∨ t.kind = .showData) ∧ (statement t ts).rest = ts ∨
      (statement t ts).rest <:+ ts ∧ (kindAhead (statement t ts).rest).endsLine = true := by
  unfold statement
  split
  · exact .inl ⟨.inl ‹_›, rfl⟩
  · exact .inl ⟨.inr ‹_›, rfl⟩
  · exact .inr ⟨(endLine_isSuffix _).trans (titleText_isSuffix ts), endsLine_endLine _⟩
  · exact .inr ⟨(endLine_isSuffix _).trans (quotedEntry_isSuffix t ts), endsLine_endLine _⟩
  · exact .inr ⟨(endLine_isSuffix _).trans (bareEntry_isSuffix t ts), endsLine_endLine _⟩
  · exact .inr ⟨(endLine_isSuffix _).trans (recover_isSuffix ts), endsLine_endLine _⟩

theorem statement_isSuffix (t : Tok) (ts : Toks) : (statement t ts).rest <:+ ts := by
  rcases statement_rest t ts with ⟨-, hrest⟩ | ⟨hsuffix, -⟩
  · simp only [hrest, List.suffix_refl]
  · exact hsuffix

/-! ## Where entries are read -/

/-- An entry is read from these tokens: its label, what stands behind it on the line, and its
value. -/
structure Valued (e : Entry) (label : Tok) (between : Toks) (value : Tok) : Prop where
  inline : ∀ x ∈ label :: between, x.kind ≠ .newline
  place_eq : e.place = label.place
  value_kind : value.kind = .number
  value_eq : numberValue? value.image = some e.value
  column_eq : e.valueColumn = value.column
  length_eq : e.valueLength = value.width

theorem entryValue_valued {name : String} {label : Tok} {ts : Toks} {e : Entry} (between : Toks)
    (hinline : ∀ x ∈ label :: between, x.kind ≠ .newline)
    (h : (entryValue name label.place ts).value = some e) :
    ∃ value, ts = value :: (entryValue name label.place ts).rest ∧
      Valued e label between value := by
  unfold entryValue at h ⊢
  split at h
  · rename_i value post
    split at h
    · rename_i hk
      split at h
      · rename_i number hnumber
        cases h
        rw [if_pos hk]
        exact ⟨value, rfl, hinline, rfl, hk, hnumber, rfl, rfl⟩
      · cases h
    · cases h
  · cases h

theorem quotedEntry_valued {label : Tok} {ts : Toks} {e : Entry} (hk : label.kind = .str)
    (h : (quotedEntry label ts).value = some e) :
    ∃ between value, ts = between ++ value :: (quotedEntry label ts).rest ∧
      Valued e label between value := by
  unfold quotedEntry at h ⊢
  split at h
  · rename_i c rest
    split at h
    · rename_i hcolon
      obtain ⟨value, hrest, hvalue⟩ := entryValue_valued [c] (by simp [hk, hcolon]) h
      rw [if_pos hcolon]
      exact ⟨[c], value, congrArg (c :: ·) hrest, hvalue⟩
    · rename_i hcolon
      split at h
      · rename_i hnumber
        obtain ⟨value, hts, hvalue⟩ := entryValue_valued [] (by simp [hk]) h
        rw [if_neg hcolon, if_pos hnumber]
        exact ⟨[], value, hts, hvalue⟩
      · cases h
  · cases h

theorem bareEntry_valued {label : Tok} {ts : Toks} {e : Entry} (hk : label.kind = .word)
    (h : (bareEntry label ts).value = some e) :
    ∃ between value, ts = between ++ value :: (bareEntry label ts).rest ∧
      Valued e label between value := by
  have hsplit := List.takeWhile_append_dropWhile (p := (·.kind == Kind.word)) (l := ts)
  have hwords : ∀ x ∈ ts.takeWhile (·.kind == Kind.word), x.kind = .word := by
    intro x hx
    exact eq_of_beq (List.all_eq_true.mp List.all_takeWhile x hx)
  unfold bareEntry at h ⊢
  split at h
  · cases h
  · split at h
    · rename_i c rest hrest
      split at h
      · rename_i hcolon
        -- the other words of the label and the colon stand before the value
        have hinline : ∀ x ∈ label :: (ts.takeWhile (·.kind == Kind.word) ++ [c]),
            x.kind ≠ .newline := by
          intro x hx
          simp only [List.mem_cons, List.mem_append, List.not_mem_nil, or_false] at hx
          rcases hx with rfl | hx | rfl
          · simp [hk]
          · simp [hwords x hx]
          · simp [hcolon]
        obtain ⟨value, hpost, hvalue⟩ := entryValue_valued _ hinline h
        dsimp only
        rw [if_pos hcolon]
        refine ⟨_, value, ?_, hvalue⟩
        rw [List.append_assoc, List.singleton_append, Reading.after, ← hpost, ← hrest]
        exact hsplit.symm
      · cases h
    · cases h

/-- The next statement starts behind the value of an entry. -/
theorem statement_valued {t : Tok} {ts : Toks} {e : Entry}
    (h : (statement t ts).value = some (.entry e)) :
    ∃ between value post, ts = between ++ value :: post ∧ Valued e t between value ∧
      (statement t ts).rest <:+ post := by
  unfold statement at h ⊢
  split at h
  · cases h
  · cases h
  · rw [endLine_value] at h
    cases h
  · rename_i hk
    rw [endLine_value] at h
    obtain ⟨own, hown, heq⟩ := Option.map_eq_some_iff.mp h
    cases heq
    obtain ⟨between, value, hts, hvalued⟩ := quotedEntry_valued hk hown
    exact ⟨between, value, _, hts, hvalued, endLine_isSuffix _⟩
  · rename_i hk
    rw [endLine_value] at h
    obtain ⟨own, hown, heq⟩ := Option.map_eq_some_iff.mp h
    cases heq
    obtain ⟨between, value, hts, hvalued⟩ := bareEntry_valued hk hown
    exact ⟨between, value, _, hts, hvalued, endLine_isSuffix _⟩
  · rw [endLine_value] at h
    cases h

/-! ## Entries one behind the other -/

/-- Each entry is read from tokens of its own, behind those of the entries before it. -/
inductive ReadInOrder : Toks → List Entry → Prop where
  | nil (ts : Toks) : ReadInOrder ts []
  | cons {before between post : Toks} {label value : Tok} {e : Entry} {es : List Entry}
    (he : Valued e label between value) (h : ReadInOrder post es) :
    ReadInOrder (before ++ label :: (between ++ value :: post)) (e :: es)

namespace ReadInOrder

variable {ts : Toks} {es : List Entry}

theorem prepend (h : ReadInOrder ts es) (xs : Toks) : ReadInOrder (xs ++ ts) es := by
  cases h with
  | nil => exact .nil _
  | cons he h =>
    rw [← List.append_assoc]
    exact .cons he h

theorem exists_of_mem (h : ReadInOrder ts es) {e : Entry} (he : e ∈ es) :
    ∃ pre label between value post, ts = pre ++ label :: (between ++ value :: post) ∧
      Valued e label between value := by
  induction h with
  | nil => cases he
  | @cons before between post label value first es hfirst _ ih =>
    rcases List.mem_cons.mp he with rfl | he
    · exact ⟨before, label, between, value, post, rfl, hfirst⟩
    · obtain ⟨pre, label', between', value', post', rfl, hvalued⟩ := ih he
      refine ⟨before ++ label :: (between ++ value :: pre), label', between', value', post', ?_,
        hvalued⟩
      simp

/-- The labels stand in the order of the entries, and no two entries share one. -/
theorem places_sublist (h : ReadInOrder ts es) :
    (es.map (·.place)).Sublist (ts.map (·.place)) := by
  induction h with
  | nil => exact List.nil_sublist _
  | @cons before between post label value e es he _ ih =>
    simp only [List.map_append, List.map_cons, he.place_eq]
    refine List.sublist_append_of_sublist_right (.cons_cons _ ?_)
    exact List.sublist_append_of_sublist_right (.cons _ ih)

end ReadInOrder

/-- The entry that a part adds, if it is one. -/
def Part.entry? : Part → Option Entry
  | .entry e => some e
  | .showData | .title _ => none

theorem entries_foldl (parts : List Part) (chart : Chart) :
    (parts.foldl Chart.add chart).entries = chart.entries ++ parts.filterMap Part.entry? := by
  induction parts generalizing chart with
  | nil => simp
  | cons part parts ih =>
    rw [List.foldl_cons, ih]
    rcases part with _ | (_ | text) | e <;> simp [List.filterMap_cons, Chart.add, Part.entry?]

/-- A statement adds at most one entry, and leaves the tokens of those behind it. -/
theorem statement_readInOrder {t : Tok} {ts : Toks} {es : List Entry}
    (h : ReadInOrder (statement t ts).rest es) :
    ReadInOrder (t :: ts) (((statement t ts).value.bind Part.entry?).toList ++ es) := by
  rcases he : (statement t ts).value.bind Part.entry? with _ | e
  · obtain ⟨taken, htaken⟩ := statement_isSuffix t ts
    rw [← htaken]
    exact h.prepend (t :: taken)
  · obtain ⟨part, hvalue, hpart⟩ := Option.bind_eq_some_iff.mp he
    obtain rfl : part = .entry e := by
      cases part <;> simp_all [Part.entry?]
    obtain ⟨between, value, post, hts, hvalued, later, hpost⟩ := statement_valued hvalue
    rw [hts, ← hpost, ← List.nil_append (t :: _)]
    exact .cons hvalued (h.prepend later)

theorem statements_readInOrder (ts : Toks) :
    ReadInOrder ts (((statements ts).filterMap (·.1)).filterMap Part.entry?) := by
  -- by the statements: what one leaves is what the next ones are read from
  fun_induction statements ts with
  | case1 => exact .nil _
  | case2 => exact .nil _
  | case3 t rest _ ih =>
    have hstep := statement_readInOrder ih
    cases hv : (statement t rest).value with
    | none =>
      rw [hv] at hstep
      exact hstep
    | some part =>
      rw [hv] at hstep
      cases part <;> exact hstep

/-! ## Charts -/

/-- Line ends before the header are passed over. -/
theorem parse_of_header {gap : Toks} {header : Tok} (hg : ∀ t ∈ gap, t.kind = .newline)
    (hh : header.kind = .header) (rest : Toks) :
    parse (gap ++ header :: rest) =
      { tree := some (((statements rest).filterMap (·.1)).foldl Chart.add {})
        errors := (statements rest).flatMap (·.2) } := by
  have hskip : (gap ++ header :: rest).dropWhile (·.kind == .newline) = header :: rest := by
    rw [List.dropWhile_append_of_pos (by simpa using hg)]
    exact List.dropWhile_cons_of_neg (by simp [hh])
  simp [parse, hskip, hh]

/-- There is a chart exactly where a header comes first, up to line ends. -/
theorem exists_tree_iff {ts : Toks} :
    (∃ chart, (parse ts).tree = some chart) ↔
      ∃ gap header rest, ts = gap ++ header :: rest ∧ (∀ t ∈ gap, t.kind = .newline) ∧
        header.kind = .header := by
  constructor
  · rintro ⟨chart, h⟩
    have hts := List.takeWhile_append_dropWhile (p := (·.kind == Kind.newline)) (l := ts)
    unfold parse at h
    split at h
    · cases h
    · rename_i header rest hskip
      split at h
      · rename_i hheader
        rw [hskip] at hts
        refine ⟨_, header, rest, hts.symm, ?_, hheader⟩
        intro t ht
        exact beq_iff_eq.mp (List.all_eq_true.mp List.all_takeWhile t ht)
      · cases h
  · rintro ⟨gap, header, rest, rfl, hgap, hheader⟩
    exact ⟨_, congrArg Parsed.tree (parse_of_header hgap hheader rest)⟩

/-- The entries of a chart are read in the order of its tokens, whatever errors there are. -/
theorem parse_readInOrder {ts : Toks} {chart : Chart} (h : (parse ts).tree = some chart) :
    ReadInOrder ts chart.entries := by
  obtain ⟨gap, header, rest, rfl, hgap, hheader⟩ := exists_tree_iff.mp ⟨chart, h⟩
  rw [parse_of_header hgap hheader] at h
  obtain rfl := Option.some.inj h
  rw [entries_foldl]
  have hrest := (statements_readInOrder rest).prepend (gap ++ [header])
  rw [List.append_assoc] at hrest
  exact hrest

end DiagramLint.Pie
