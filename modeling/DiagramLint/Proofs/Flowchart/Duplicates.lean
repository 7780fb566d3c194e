-- The law of repeated subgraph ids: the tree is searched with the ids seen so
-- far in hand, and since its subgraphs come in the order of the words that
-- open them, a repeated id is reported with the first line of the text that
-- has it.
import DiagramLint.Proofs.Flowchart.Showing
import DiagramLint.Proofs.Grammar.Isolation
import DiagramLint.Proofs.Linter.Codes
import DiagramLint.Proofs.Linter.Reports

namespace DiagramLint.Flowchart

/-! ## Repeated ids -/

/-- What is reported of a subgraph with others before it: a finding at its keyword when one of them
has its id, with the line of the first that does. -/
def repeatOf? (earlier : List OpenSubgraph) (s : OpenSubgraph) : Option Diagnostic := do
  let id ← s.id
  let first ← earlier.find? (·.id == some id)
  return {
    line := s.place.line
    column := s.place.column
    message := "Subgraph id '" ++ id ++ "' already used on line " ++ toString first.place.line
    severity := .error
    code := some Code.subgraphDuplicateId
    length := some "subgraph".length }

/-- What is reported of subgraphs in their order, each with those before it. -/
def repeats (subgraphs : List OpenSubgraph) : List Diagnostic :=
  subgraphs.zipIdx.filterMap fun (s, i) => repeatOf? (subgraphs.take i) s

/-! ## Ids seen so far -/

/-- The line of each id is that of the first subgraph that has it. -/
def Remembers (seen : List (String × Nat)) (earlier : List OpenSubgraph) : Prop :=
  ∀ id, seen.lookup id = (earlier.find? (·.id == some id)).map (·.place.line)

namespace Remembers

variable {seen : List (String × Nat)} {earlier : List OpenSubgraph} {s : OpenSubgraph}

theorem nil : Remembers [] [] := fun _ => rfl

theorem find?_eq_none (h : Remembers seen earlier) {id : String} (hid : seen.lookup id = none) :
    earlier.find? (·.id == some id) = none := by
  have hnone := h id
  rwa [hid, eq_comm, Option.map_eq_none_iff] at hnone

theorem exists_find?_eq_some (h : Remembers seen earlier) {id : String} {line : Nat}
    (hid : seen.lookup id = some line) :
    ∃ first, earlier.find? (·.id == some id) = some first ∧ first.place.line = line := by
  have hsome := h id
  rwa [hid, eq_comm, Option.map_eq_some_iff] at hsome

/-- Nothing is to be kept of a subgraph without an id, or with an id that is known. -/
theorem skip (h : Remembers seen earlier)
    (hs : ∀ id, s.id = some id → ∃ line, seen.lookup id = some line) :
    Remembers seen (earlier ++ [s]) := by
  intro id
  rw [h id, List.find?_append]
  cases hfirst : earlier.find? (·.id == some id) with
  | some first => rfl
  | none =>
    have hid : s.id ≠ some id := by
      intro hid
      obtain ⟨line, hline⟩ := hs id hid
      rw [h id, hfirst] at hline
      cases hline
    simp [hid]

theorem add (h : Remembers seen earlier) {own : String} (hs : s.id = some own)
    (hnew : seen.lookup own = none) :
    Remembers ((own, s.place.line) :: seen) (earlier ++ [s]) := by
  intro id
  rw [List.find?_append, List.lookup_cons]
  by_cases hid : id = own
  · subst hid
    simp [h.find?_eq_none hnew, hs]
  · have hother : (s.id == some id) = false := by
      rw [hs]
      simpa using Ne.symm hid
    rw [beq_eq_false_iff_ne.mpr hid, h id]
    simp [hother]

end Remembers

/-! ## What is found in the tree -/

section

variable {t : Text}

theorem clampTo_duplicate {tok : Tok} (h : tok.StandsIn t) (himage : tok.image = "subgraph")
    (message : String) :
    (((Diagnostic.error tok.place message).withCode Code.subgraphDuplicateId).withLength
        "subgraph".length).clampTo t =
      { line := tok.line, column := tok.column, message, severity := .error,
        code := some Code.subgraphDuplicateId, length := some "subgraph".length } := by
  generalize hd : ((Diagnostic.error tok.place message).withCode
    Code.subgraphDuplicateId).withLength "subgraph".length = d
  have hplace : (d.clampTo t).place = tok.place := by
    rw [← hd]
    exact (h.reads_image rfl rfl (by rw [himage]; rfl)).1
  rw [Diagnostic.clampTo_of_place hplace, ← hd]
  rfl

/-- The keyword of a subgraph stands in the text. -/
def OpenSubgraph.StandsIn (t : Text) (s : OpenSubgraph) : Prop :=
  ∃ tok : Tok, tok.StandsIn t ∧ tok.image = "subgraph" ∧ s.place = tok.place

/-- One step of the search: what is reported of a subgraph follows from those before it. -/
theorem duplicateIds_cons {seen : List (String × Nat)} {earlier : List OpenSubgraph}
    (h : Remembers seen earlier) {s : OpenSubgraph} (hs : s.StandsIn t)
    (later : List (String × Position)) :
    ∃ seen', Remembers seen' (earlier ++ [s]) ∧
      (duplicateIds seen (s.named?.toList ++ later)).map (·.clampTo t) =
        (repeatOf? earlier s).toList ++ (duplicateIds seen' later).map (·.clampTo t) := by
  obtain ⟨tok, hstands, himage, hplace⟩ := hs
  obtain ⟨id, place⟩ := s
  cases id with
  | none => exact ⟨seen, h.skip (by simp), rfl⟩
  | some id =>
    cases hseen : seen.lookup id with
    | none =>
      refine ⟨_, h.add rfl hseen, ?_⟩
      simp [OpenSubgraph.named?, duplicateIds, hseen, repeatOf?, h.find?_eq_none hseen]
    | some line =>
      -- the id is known, so the first with it stays the first
      have hknown : ∀ own, some id = some own → ∃ line, seen.lookup own = some line := by
        rintro _ ⟨⟩
        exact ⟨line, hseen⟩
      refine ⟨seen, h.skip hknown, ?_⟩
      obtain ⟨first, hfirst, rfl⟩ := h.exists_find?_eq_some hseen
      obtain rfl : place = tok.place := hplace
      have hclamp := clampTo_duplicate hstands himage
        ("Subgraph id '" ++ id ++ "' already used on line " ++ toString first.place.line)
      simp only [OpenSubgraph.named?, Option.map_some, Option.toList_some,
        List.singleton_append, duplicateIds, hseen, List.map_cons, hclamp]
      simp [repeatOf?, hfirst, Token.place]

/-- The whole search, from some subgraphs on. -/
theorem duplicateIds_map_clampTo {seen : List (String × Nat)} {earlier later : List OpenSubgraph}
    (h : Remembers seen earlier) (hstands : ∀ s ∈ later, s.StandsIn t) :
    (duplicateIds seen (later.filterMap OpenSubgraph.named?)).map (·.clampTo t) =
      (later.zipIdx earlier.length).filterMap fun (s, i) =>
        repeatOf? ((earlier ++ later).take i) s := by
  induction later generalizing seen earlier with
  | nil => rfl
  | cons s later ih =>
    rw [List.forall_mem_cons] at hstands
    obtain ⟨seen', hseen', hmap⟩ :=
      duplicateIds_cons h hstands.1 (later.filterMap OpenSubgraph.named?)
    have hlater := ih hseen' hstands.2
    rw [List.append_assoc, List.singleton_append, List.length_append,
      List.length_singleton] at hlater
    have hhead : (s :: later).filterMap OpenSubgraph.named? =
        s.named?.toList ++ later.filterMap OpenSubgraph.named? := by
      cases hs : s.named? <;> simp [hs]
    rw [hhead, hmap, hlater, List.zipIdx_cons, List.filterMap_cons]
    dsimp only
    rw [List.take_left]
    cases repeatOf? earlier s <;> rfl

end

/-- What the analysis finds with the code of repeated ids is what it finds in the subgraphs. -/
theorem filter_analyze {chart : Chart} {tokens : Toks} {options : LintOptions}
    {found : List Diagnostic} (h : analyze chart tokens options = .ok found) :
    found.filter (·.hasCode Code.subgraphDuplicateId) =
      duplicateIds [] (subgraphsIn chart.statements) := by
  unfold analyze at h
  cases hrequired : directionRequired options with
  | error reason =>
    rw [hrequired] at h
    cases h
  | ok required =>
    rw [hrequired] at h
    cases h
    rw [List.filter_append, (coded_duplicateIds _ _).filter_eq_self, List.append_left_eq_self]
    split
    · rfl
    · rfl

/-- Of every text with a tree whose analysis succeeds, each `subgraph` keyword with the id of an
earlier one is reported, once, where it stands and with the line of the first that has this id; the
findings come in the order of the keywords, however deep they are nested. -/
theorem repeated_subgraph_ids_are_reported {t : Text} {options : LintOptions} {chart : Chart}
    (htree : (grammar.parseOf (tokenize t)).tree = some chart) {found : List Diagnostic}
    (hanalysis : analyze chart (tokenize t).tokens options = .ok found) :
    ∃ report, Dialect.flowchart.lint t options = .ok report ∧
      report.diagnostics.filter (·.hasCode Code.subgraphDuplicateId) =
        repeats (openings (tokenize t).tokens) := by
  have hparsed : (parse (tokenize t).tokens).tree = some chart := Grammar.tree_of_parseOf htree
  have hstands : ∀ s ∈ openings (tokenize t).tokens, s.StandsIn t := by
    intro s hs
    obtain ⟨tok, hm, hk, himage, hplace⟩ := exists_of_mem_openings hs
    exact ⟨tok, standsIn_tokenize hm (by simp [hk]) (by simp [hk]), himage, hplace⟩
  have hreported : grammar.analysisOf (some chart) (tokenize t).tokens options = found :=
    Grammar.analyzes_iff.mp (.passed hanalysis)
  have hcode : Code.subgraphDuplicateId ∉
      Code.lexError :: (tokenCodes ++ [Code.nodeIdReserved]) := by decide
  have hreport := grammar_codes.filter_report t options (tokenize t) hcode
    (explain_code_ne (by decide))
  rw [htree] at hreport
  refine ⟨_, lint_eq t options, ?_⟩
  calc (grammar.report t options (tokenize t)).diagnostics.filter
          (·.hasCode Code.subgraphDuplicateId)
      = (found.filter (·.hasCode Code.subgraphDuplicateId)).map (·.clampTo t) := by
        rw [← hreported]
        exact hreport
    _ = (duplicateIds [] ((openings (tokenize t).tokens).filterMap
          OpenSubgraph.named?)).map (·.clampTo t) := by
        rw [filter_analyze hanalysis,
          subgraphsIn_parse (terminated_tokenize t) (tidy_tokenize t) hparsed]
    _ = repeats (openings (tokenize t).tokens) := duplicateIds_map_clampTo .nil hstands

/-- Subgraphs inside and behind each other, two of them with the id of an earlier one, one without
an id, and two that are never closed. -/
def crowdedChart : Text :=
  "flowchart TD\nsubgraph a\nsubgraph b [B]\nsubgraph a\nend\nend\nsubgraph\nend\nsubgraph b".toList

theorem crowdedChart_repeats_are_reported :
    ∃ chart found, (grammar.parseOf (tokenize crowdedChart)).tree = some chart ∧
      analyze chart (tokenize crowdedChart).tokens {} = .ok found ∧
      ∃ report, Dialect.flowchart.lint crowdedChart {} = .ok report ∧
        report.diagnostics.filter (·.hasCode Code.subgraphDuplicateId) =
        [{ line := 4, column := 1, message := "Subgraph id 'a' already used on line 2",
           severity := .error, code := some "SUBGRAPH_DUPLICATE_ID", length := some 8 },
         { line := 9, column := 1, message := "Subgraph id 'b' already used on line 3",
           severity := .error, code := some "SUBGRAPH_DUPLICATE_ID", length := some 8 }] := by
  have htree : (grammar.parseOf (tokenize crowdedChart)).tree.isSome = true := by
    decide +kernel
  obtain ⟨chart, htree⟩ := Option.isSome_iff_exists.mp htree
  have hanalysis : ∃ found, analyze chart (tokenize crowdedChart).tokens {} = .ok found := ⟨_, rfl⟩
  obtain ⟨found, hanalysis⟩ := hanalysis
  obtain ⟨report, hreport, hrepeats⟩ := repeated_subgraph_ids_are_reported htree hanalysis
  refine ⟨chart, found, htree, hanalysis, report, hreport, ?_⟩
  rw [hrepeats]
  decide +kernel

end DiagramLint.Flowchart
