-- The subgraphs of a chart in their order. The parser keeps the open ones on
-- a stack and puts each into the tree where it ends, or where the text does;
-- read from the outside in, the tree still has them in the order of the words
-- that open them.
import DiagramLint.Proofs.Flowchart.Blocks

namespace DiagramLint.Flowchart

/-! ## Subgraphs among tokens -/

/-- The subgraphs that tokens open, in their order: each with the id that the text behind its
keyword starts with, if there is one. -/
def openings : Toks → List OpenSubgraph
  | [] => []
  | t :: rest =>
    if t.kind == .keyword && t.image == "subgraph" then
      ⟨(keywordText rest).1.bind subgraphId, t.place⟩ :: openings rest
    else openings rest

/-- The subgraph with its id, if it has one. -/
def OpenSubgraph.named? (s : OpenSubgraph) : Option (String × Position) := s.id.map (·, s.place)

theorem exists_of_mem_openings {ts : Toks} {s : OpenSubgraph} (h : s ∈ openings ts) :
    ∃ t ∈ ts, t.kind = .keyword ∧ t.image = "subgraph" ∧ s.place = t.place := by
  fun_induction openings ts with
  | case1 => cases h
  | case2 t rest hopens ih =>
    rcases List.mem_cons.mp h with rfl | h
    · simp only [Bool.and_eq_true, beq_iff_eq] at hopens
      exact ⟨t, List.mem_cons_self, hopens.1, hopens.2, rfl⟩
    · obtain ⟨t', hm, ht'⟩ := ih h
      exact ⟨t', List.mem_cons_of_mem _ hm, ht'⟩
  | case3 t rest _ ih =>
    obtain ⟨t', hm, ht'⟩ := ih h
    exact ⟨t', List.mem_cons_of_mem _ hm, ht'⟩

theorem openings_append {xs : Toks} (h : ∀ t ∈ xs, blockSyntax.opens t = false) (ys : Toks) :
    openings (xs ++ ys) = openings ys := by
  induction xs with
  | nil => rfl
  | cons t xs ih =>
    have ht : (t.kind == .keyword && t.image == "subgraph") = false := h t List.mem_cons_self
    rw [List.cons_append, openings, ht]
    exact ih fun t hm => h t (List.mem_cons_of_mem _ hm)

/-- Inside a statement no subgraph is opened. -/
theorem openings_leftOf {ts left : Toks} (hl : LeftOf Kind.endsStatement ts left)
    (h : blockSyntax.Tidy false ts) : openings ts = openings left := by
  obtain ⟨taken, rfl, htaken⟩ := h.opens_leftOf separates_of_inline hl
  exact openings_append htaken left

theorem opens_of_endsStatement {t : Tok} (h : t.kind.endsStatement = true) :
    blockSyntax.opens t = false := by
  have hk : t.kind ≠ .keyword := by
    intro hk
    rw [hk] at h
    cases h
  simp [blockSyntax, hk]

theorem openings_gap {gap : Toks} (hg : ∀ t ∈ gap, t.kind.isSeparator = true) (ts : Toks) :
    openings (gap ++ ts) = openings ts :=
  openings_append (fun t hm => opens_of_endsStatement (endsStatement_of_separator (hg t hm))) ts

/-! ## Subgraphs among statements -/

/-- What a statement opens is what its first token says. -/
theorem statement_opened (t : Tok) (ts : Toks) :
    (statement t ts).value.bind BlockEvent.opened? =
      if blockSyntax.opens t then some ⟨(keywordText ts).1.bind subgraphId, t.place⟩ else none := by
  split
  · rename_i ho
    obtain ⟨hk, hi⟩ : t.kind = .keyword ∧ t.image = "subgraph" := by simpa [blockSyntax] using ho
    simp only [statement, hk, keywordStatement, hi]
    rfl
  · rename_i ho
    unfold statement keywordStatement
    split
    · rename_i hk
      split
      · rename_i hi
        exact absurd (by simp [blockSyntax, hk, hi]) ho
      · rfl
      · split
        · split <;> rfl
        · rfl
      · rfl
    · split
      · rfl
      · unfold Reading.map
        cases (chain t ts).value <;> rfl
    · rfl

/-- An event that opens or closes a subgraph, or places a statement that holds none. -/
def Flat : Event → Prop
  | .opened _ | .closed _ => True
  | .placed s => s.subgraphs = []
  | .branched _ _ => False

theorem statement_flat (t : Tok) (ts : Toks) : ∀ event ∈ (statement t ts).value, Flat event := by
  intro event he
  unfold statement keywordStatement at he
  split at he
  · split at he
    · cases he
      trivial
    · cases he
      trivial
    · split at he
      · split at he
        · cases he
          simp [Flat, Statement.subgraphs]
        · cases he
      · cases he
    · cases he
      simp [Flat, Statement.subgraphs]
  · split at he
    · cases he
    · obtain ⟨c, -, rfl⟩ := Option.map_eq_some_iff.mp he
      simp [Flat, Statement.subgraphs]
  · cases he

/-- The subgraphs that statements open, in their order. -/
def opened (items : List (Option Event × List ParseError)) : List OpenSubgraph :=
  items.filterMap fun item => item.1.bind BlockEvent.opened?

theorem opened_cons (event : Option Event) (errors : List ParseError)
    (items : List (Option Event × List ParseError)) :
    opened ((event, errors) :: items) =
      (event.bind BlockEvent.opened?).toList ++ opened items := by
  unfold opened
  cases hs : event.bind BlockEvent.opened? <;> simp [hs]

/-- A statement opens what its tokens open. -/
theorem openings_statement {starts : Bool} {t : Tok} {rest : Toks}
    (ht : t.kind.endsStatement = false) (htidy : blockSyntax.Tidy starts (t :: rest)) :
    openings (t :: rest) =
      ((statement t rest).value.bind BlockEvent.opened?).toList ++
        openings (statement t rest).rest ∧
      blockSyntax.Tidy false (statement t rest).rest := by
  have htakes := (statement_takes t rest).rest
  obtain ⟨-, hleft⟩ := BlockSyntax.marks_statement separates_of_inline ht htakes htidy
  obtain ⟨-, hrest⟩ := htidy
  rw [separates_of_inline t.kind ht] at hrest
  refine ⟨?_, hleft⟩
  rw [statement_opened, openings, ← openings_leftOf htakes hrest]
  change (if blockSyntax.opens t = true then _ else _) = _
  split <;> rfl

/-- The statements of a chart open the subgraphs that its tokens open. -/
theorem openings_statements {ts : Toks} (hterm : Terminated .eof ts) {starts : Bool}
    (htidy : blockSyntax.Tidy starts ts) : openings ts = opened (statements ts) := by
  fun_induction statements ts generalizing starts with
  | case1 ts hs =>
    exact absurd hs (hterm.dropWhile (p := Kind.isSeparator) rfl).ne_nil
  | case2 ts t rest hs hk =>
    obtain ⟨gap, hts, hgap⟩ := skipSeparators_eq ts
    rw [hs] at hts
    subst hts
    -- nothing stands behind the end of the text
    obtain rfl : rest = [] := hterm.of_append.eq_nil hk
    have heof : ∀ x ∈ [t], blockSyntax.opens x = false := by
      intro x hx
      rw [List.mem_singleton.mp hx]
      exact opens_of_endsStatement (by rw [hk]; rfl)
    rw [openings_gap hgap]
    exact openings_append heof []
  | case3 ts t rest hs hk ih =>
    obtain ⟨gap, hts, hgap⟩ := skipSeparators_eq ts
    rw [hs] at hts
    subst hts
    have hends := endsStatement_of_ahead hs hk
    obtain ⟨hopenings, hleft⟩ :=
      openings_statement hends (BlockSyntax.tidy_append.mp htidy).2
    have hrest := (statement_takes t rest).rest.terminated rfl (hterm.of_append.tail hk)
    rw [openings_gap hgap, hopenings, opened_cons, ih hrest hleft]

/-! ## Subgraphs in the tree -/

theorem subgraphsIn_append (xs ys : List Statement) :
    subgraphsIn (xs ++ ys) = subgraphsIn xs ++ subgraphsIn ys := by
  induction xs with
  | nil => rfl
  | cons s xs ih => rw [List.cons_append, subgraphsIn, subgraphsIn, ih, List.append_assoc]

theorem subgraphsIn_singleton (s : Statement) : subgraphsIn [s] = s.subgraphs := by
  rw [subgraphsIn, subgraphsIn, List.append_nil]

theorem subgraphs_wrap (s : OpenSubgraph) (body : List Statement) :
    (wrapSubgraph s body).subgraphs = s.named?.toList ++ subgraphsIn body := by
  obtain ⟨id, place⟩ := s
  cases id with
  | none => simp [wrapSubgraph, Statement.subgraphs, OpenSubgraph.named?]
  | some id => simp [wrapSubgraph, Statement.subgraphs, OpenSubgraph.named?]

/-- The subgraphs with an id that were opened so far: what stands before each open one, that one,
and what stands in it. -/
def soFar (current : List Statement) :
    List (OpenSubgraph × List Statement) → List (String × Position)
  | [] => subgraphsIn current
  | (s, outer) :: blocks => soFar outer blocks ++ s.named?.toList ++ subgraphsIn current

theorem soFar_append (current more : List Statement)
    (blocks : List (OpenSubgraph × List Statement)) :
    soFar (current ++ more) blocks = soFar current blocks ++ subgraphsIn more := by
  cases blocks with
  | nil => exact subgraphsIn_append _ _
  | cons block blocks => simp only [soFar, subgraphsIn_append, List.append_assoc]

/-- A subgraph that ends stands where it was opened. -/
theorem soFar_wrap (current outer : List Statement) (s : OpenSubgraph)
    (blocks : List (OpenSubgraph × List Statement)) :
    soFar (outer ++ [wrapSubgraph s current]) blocks = soFar current ((s, outer) :: blocks) := by
  rw [soFar_append, subgraphsIn_singleton, subgraphs_wrap, soFar, List.append_assoc]

theorem subgraphsIn_unwind (current : List Statement)
    (blocks : List (OpenSubgraph × List Statement)) :
    subgraphsIn (Nesting.unwind wrapSubgraph current blocks) = soFar current blocks := by
  induction blocks generalizing current with
  | nil => rfl
  | cons block blocks ih =>
    obtain ⟨s, outer⟩ := block
    rw [Nesting.unwind, ih, soFar_wrap]

/-- An event adds the subgraph it opens, and nothing else. -/
theorem soFar_step (n : Nesting OpenSubgraph Statement) {event : Event} (h : Flat event) :
    soFar (n.step wrapSubgraph event).1.current (n.step wrapSubgraph event).1.blocks =
      soFar n.current n.blocks ++ event.opened?.toList.filterMap OpenSubgraph.named? := by
  obtain ⟨current, blocks⟩ := n
  cases event with
  | opened s =>
    simp only [Nesting.step, soFar, subgraphsIn, List.append_nil, BlockEvent.opened?,
      Option.toList_some, List.filterMap_cons, List.filterMap_nil]
    cases s.named? <;> rfl
  | closed unmatched =>
    cases blocks with
    | nil => simp [Nesting.step, BlockEvent.opened?]
    | cons block blocks =>
      obtain ⟨s, outer⟩ := block
      simp [Nesting.step, soFar_wrap, BlockEvent.opened?]
  | placed s =>
    have hs : s.subgraphs = [] := h
    simp [Nesting.step, soFar_append, subgraphsIn_singleton, hs, BlockEvent.opened?]
  | branched change outside => exact h.elim

/-- A run adds the subgraphs opened on the way, in their order. -/
theorem soFar_run (n : Nesting OpenSubgraph Statement)
    {items : List (Option Event × List ParseError)}
    (h : ∀ item ∈ items, ∀ event ∈ item.1, Flat event) :
    soFar (n.run wrapSubgraph items).1.current (n.run wrapSubgraph items).1.blocks =
      soFar n.current n.blocks ++ (opened items).filterMap OpenSubgraph.named? := by
  induction items generalizing n with
  | nil => simp [Nesting.run, opened]
  | cons item items ih =>
    obtain ⟨event, errors⟩ := item
    obtain ⟨hevent, hlater⟩ := List.forall_mem_cons.mp h
    rw [opened_cons, List.filterMap_append]
    cases event with
    | none => exact ih n hlater
    | some event =>
      have hstep := soFar_step n (hevent event rfl)
      simp only [Nesting.run, Option.bind_some]
      rw [ih _ hlater, hstep, List.append_assoc]

/-! ## Charts -/

/-- The tokens of a chart with a tree: a header, and the statements that make the tree. -/
theorem exists_header_of_tree {ts : Toks} {chart : Chart} (h : (parse ts).tree = some chart) :
    ∃ gap header rest, ts = gap ++ header :: rest ∧
      (∀ t ∈ gap, t.kind.isSeparator = true) ∧ header.kind = .header ∧
      let n := (Nesting.run wrapSubgraph {}
        (statements (endStatement (headerDirection rest).2).2)).1
      chart.statements = Nesting.unwind wrapSubgraph n.current n.blocks := by
  obtain ⟨gap, hts, hgap⟩ := skipSeparators_eq ts
  cases hskip : skipSeparators ts with
  | nil =>
    rw [parse, hskip] at h
    cases h
  | cons header rest =>
    by_cases hh : header.kind = .header
    · rw [parse_of_header hskip hh] at h
      rw [hskip] at hts
      exact ⟨gap, header, rest, hts, hgap, hh, by rw [← Option.some.inj h]⟩
    · rw [parse, hskip] at h
      dsimp only at h
      rw [if_neg hh] at h
      cases h

/-- The tree of a chart has its subgraphs in the order in which the tokens open them. -/
theorem subgraphsIn_parse {ts : Toks} (hterm : Terminated .eof ts)
    (htidy : blockSyntax.Tidy true ts) {chart : Chart} (h : (parse ts).tree = some chart) :
    subgraphsIn chart.statements = (openings ts).filterMap OpenSubgraph.named? := by
  obtain ⟨gap, header, rest, rfl, hgap, hh, hstatements⟩ := exists_header_of_tree h
  have hterm : Terminated .eof rest := hterm.of_append.tail (by simp [hh])
  have htidy : blockSyntax.Tidy false rest := by
    have hrest := (BlockSyntax.tidy_append.mp htidy).2.2
    rwa [hh] at hrest
  -- on the header's line nothing is opened
  have hA := admits_leftOf rest
  obtain ⟨-, hleft⟩ := endStatement_leaves hA (headerDirection_leaves hA (leftOf_self rest))
  have hbody := (BlockSyntax.marks_leftOf separates_of_inline hleft htidy).2
  have hopenings : openings (gap ++ header :: rest) =
      opened (statements (endStatement (headerDirection rest).2).2) := by
    rw [openings_gap hgap, ← List.singleton_append, openings_append (by simp [blockSyntax, hh]),
      openings_leftOf hleft htidy, openings_statements (hleft.terminated rfl hterm) hbody]
  have hflat : ∀ item ∈ statements (endStatement (headerDirection rest).2).2,
      ∀ event ∈ item.1, Flat event := by
    intro item hm
    obtain ⟨t, later, -, rfl⟩ := mem_statements hm
    exact statement_flat t later
  rw [hstatements, subgraphsIn_unwind, soFar_run {} hflat, hopenings]
  rfl

end DiagramLint.Flowchart
